import MenableDriver.Dma.Runs

/-!
# Which process a channel belongs to

A start notes the channel in the flags of the thread group that makes it, under the
number of the channel; the last close of the group reads the flags under the index of
the channel on its FPGA and stops what is flagged. No stop takes a flag back.
-/

namespace MenableDriver

set_option autoImplicit false

open Transition

variable {m m' m'' : Men} {o : Outcome} {c : ChanRef}

section Lists
variable {tgs : List ThreadGroup} {f : ThreadGroup → ThreadGroup} {current a : Tgid}

theorem find_modThreadgroup (hf : ∀ tg, tg.id = current → (f tg).id = current) :
    (modThreadgroup current f tgs).find? (fun tg => decide (tg.id = a)) =
      if a = current then (tgs.find? fun tg => decide (tg.id = a)).map f
      else tgs.find? fun tg => decide (tg.id = a) := by
  induction tgs with
  | nil => simp [modThreadgroup]
  | cons tg tgs ih =>
    unfold modThreadgroup
    by_cases hc : tg.id = current
    · by_cases ha : a = current
      · simp [hc, ha, hf tg hc]
      · have hne : tg.id ≠ a := fun h => ha (h.symm.trans hc)
        simp [hc, ha, hf tg hc, Ne.symm ha]
    · rw [if_neg hc]
      by_cases ha : tg.id = a
      · have hac : a ≠ current := fun h => hc (ha.trans h)
        simp [ha, hac]
      · simpa [List.find?_cons, ha] using ih

theorem ids_modThreadgroup (hf : ∀ tg, tg.id = current → (f tg).id = current) :
    (modThreadgroup current f tgs).map ThreadGroup.id = tgs.map ThreadGroup.id := by
  induction tgs with
  | nil => rfl
  | cons tg tgs ih =>
    unfold modThreadgroup
    split_ifs with hc
    · simp [hf tg hc, hc]
    · simp [ih]

theorem find_eraseP_other (ha : a ≠ current) :
    (tgs.eraseP fun tg => decide (tg.id = current)).find? (fun tg => decide (tg.id = a)) =
      tgs.find? fun tg => decide (tg.id = a) := by
  induction tgs with
  | nil => rfl
  | cons tg tgs ih =>
    by_cases hc : tg.id = current
    · simp [hc, Ne.symm ha]
    · by_cases h : tg.id = a
      · simp [h, ha]
      · simpa [hc, h] using ih

theorem find_eraseP_self (hn : (tgs.map ThreadGroup.id).Nodup) :
    (tgs.eraseP fun tg => decide (tg.id = current)).find? (fun tg => decide (tg.id = current)) = none := by
  induction tgs with
  | nil => rfl
  | cons tg tgs ih =>
    obtain ⟨hnot, hn⟩ := List.nodup_cons.mp hn
    by_cases hc : tg.id = current
    · simp only [hc, decide_true, List.eraseP_cons_of_pos, List.find?_eq_none, decide_eq_true_eq]
      intro x hx hxc
      exact hnot (hc.trans hxc.symm ▸ List.mem_map_of_mem hx)
    · simpa [hc] using ih hn

end Lists

/-- Handles, groups and the layout of the board stay what they are. -/
structure SameOwners (m m' : Men) : Prop where
  groups : m'.groups = m.groups
  use : m'.use = m.use
  files : m'.files = m.files
  dmacnt : m'.dmacnt = m.dmacnt
  activeFpgas : m'.activeFpgas = m.activeFpgas

theorem SameOwners.refl (m : Men) : SameOwners m m := ⟨rfl, rfl, rfl, rfl, rfl⟩

theorem SameOwners.trans (h : SameOwners m m') (h' : SameOwners m' m'') : SameOwners m m'' :=
  ⟨h'.groups.trans h.groups, h'.use.trans h.use, h'.files.trans h.files, h'.dmacnt.trans h.dmacnt,
    h'.activeFpgas.trans h.activeFpgas⟩

theorem OnChan.sameOwners {R : Dmachan → Dmachan → Prop} (h : OnChan R c m m') : SameOwners m m' :=
  ⟨h.groups, h.use, h.files, h.dmacnt, h.activeFpgas⟩

theorem SameOwners.setChan (m : Men) (c : ChanRef) (ch : Dmachan) : SameOwners m (m.setChan c ch) :=
  ⟨rfl, rfl, rfl, rfl, rfl⟩

theorem menReleaseBufHead_owners {h : HeadRef} {ret : Ret} (hc : menReleaseBufHead m h = (m', ret)) :
    SameOwners m m' := by
  rcases menReleaseBufHead_cases hc with ⟨rfl, _⟩ | ⟨_, ⟨_, rfl⟩ | ⟨c, _, _, rfl⟩⟩
  · exact .refl _
  · exact ⟨rfl, rfl, rfl, rfl, rfl⟩
  · exact ⟨rfl, rfl, rfl, rfl, rfl⟩

theorem menCleanupMem_owners {hs : List HeadRef} (hc : menCleanupMem m hs = .ok m') : SameOwners m m' :=
  menCleanupMem_induct (P := fun _ m' => SameOwners m m')
    (fun h₁ hs => (hs.trans (menReleaseBufHead_owners h₁)).trans ⟨rfl, rfl, rfl, rfl, rfl⟩) (.refl m) hc

/-- The calls that change groups or handles. -/
def Call.changesOwners : Call → Bool
  | .openFile .. | .close .. | .startTail .. | .startRest .. => true
  | _ => false

theorem call_sameOwners {k : Call} (hk : k.changesOwners = false) (h : call m k = .ok (m', o)) :
    SameOwners m m' := by
  cases k with
  | createHead subbufs mem =>
    obtain ⟨⟨m₁, r⟩, h₁, h⟩ := bind_ok.mp h
    cases h
    rcases menCreateBufHead_cases h₁ with rfl | ⟨hd, _, _, _, _, rfl⟩
    · exact .refl _
    · exact ⟨rfl, rfl, rfl, rfl, rfl⟩
  | addBuffer r mem =>
    obtain ⟨⟨m₁, ret⟩, h₁, h⟩ := bind_ok.mp h
    cases h
    rcases menCreateUserbuf_cases h₁ with rfl | ⟨hd, b, _, _, _, _, _, ⟨_, rfl⟩ | ⟨c', _, rfl⟩⟩
    · exact .refl _
    · exact ⟨rfl, rfl, rfl, rfl, rfl⟩
    · exact ⟨rfl, rfl, rfl, rfl, rfl⟩
  | delBuffer headnr index =>
    obtain ⟨⟨m₁, ret⟩, h₁, h⟩ := bind_ok.mp h
    cases h
    rcases menIoctlDelVirtUserBuffer_cases h₁ with rfl | ⟨hd, m₂, _, h₂, rfl⟩
    · exact .refl _
    · rcases menFreeUserbuf_cases h₂ with ⟨_, hne⟩ | ⟨b, _, _, _, _, ⟨_, rfl⟩ | ⟨c', m₃, _, _, h₃, rfl⟩⟩
      · exact absurd rfl hne
      · exact ⟨rfl, rfl, rfl, rfl, rfl⟩
      · rcases dropFromChannel_cases h₃ with ⟨_, rfl⟩ | ⟨_, _, rfl⟩
        · exact ⟨rfl, rfl, rfl, rfl, rfl⟩
        · exact ⟨rfl, rfl, rfl, rfl, rfl⟩
  | destroySb b =>
    obtain ⟨m₁, h₁, h⟩ := bind_ok.mp h
    cases h
    obtain ⟨_, rfl⟩ := menDestroySb_ok.mp h₁
    exact ⟨rfl, rfl, rfl, rfl, rfl⟩
  | destroyHead hd =>
    obtain ⟨m₁, h₁, h⟩ := bind_ok.mp h
    cases h
    obtain ⟨_, rfl⟩ := menFreeBufHead_ok.mp h₁
    exact ⟨rfl, rfl, rfl, rfl, rfl⟩
  | start fgr tsize =>
    cases call_start h
    exact .refl _
  | freeHead headnr =>
    obtain ⟨ret, h₁⟩ := call_freeHead h
    rcases menIoctlFreeVirtBuffer_cases h₁ with rfl | ⟨hd, m₁, _, h₂, rfl⟩
    · exact .refl _
    · exact (menReleaseBufHead_owners h₂).trans ⟨rfl, rfl, rfl, rfl, rfl⟩
  | startCancel w =>
    cases call_startCancel h
    exact .setChan ..
  | startResume w took =>
    rcases call_startResume h with rfl | ⟨_, h₁⟩
    · exact .refl _
    · obtain ⟨_, _, rfl⟩ := menDmaCleanHalt_ok.mp h₁
      exact .setChan ..
  | stop index =>
    simp only [call] at h
    split at h <;> cases h
    · exact .refl _
    · obtain ⟨chan, he⟩ := menStopDma_board m ‹_›
      rw [he]
      exact ⟨rfl, rfl, rfl, rfl, rfl⟩
  | queueCheck headIdx bufIdx =>
    rcases call_queueCheck h with rfl | ⟨b, rfl⟩
    · exact .refl _
    · exact ⟨rfl, rfl, rfl, rfl, rfl⟩
  | queueAct | unlock | getFrame | queueMax =>
    rcases call_lists rfl h with rfl | ⟨c, hl⟩
    · exact .refl _
    · exact hl.frame.sameOwners
  | cleanupMem =>
    obtain ⟨m₁, h₁, h⟩ := bind_ok.mp h
    cases h
    exact menCleanupMem_owners h₁
  | waitEnter c' img is32bit wid =>
    simp only [call] at h
    unfold menWaitDmaimgEnter at h
    dsimp only at h
    split_ifs at h <;> cases h
    · exact .refl _
    · exact .refl _
    · exact .setChan ..
  | waitLeave c' wid =>
    obtain ⟨⟨m₁, ret⟩, h₁, h⟩ := bind_ok.mp h
    cases h
    unfold menWaitDmaimgLeave at h₁
    dsimp only at h₁
    split at h₁ <;> cases h₁
    exact .setChan ..
  | irqFrame c' ts len tag =>
    obtain ⟨m₁, h₁, h⟩ := bind_ok.mp h
    cases h
    exact (irqFrame_frame h₁).sameOwners
  | irqScan c' newFrames =>
    obtain ⟨⟨m₁, finish⟩, h₁, h⟩ := bind_ok.mp h
    cases h
    exact (SameOwners.setChan m c' _).trans (irqScan_frame h₁).sameOwners
  | irqRearm c' =>
    obtain ⟨m₁, h₁, h⟩ := bind_ok.mp h
    cases h
    rcases irqRearm_cases h₁ with rfl | ⟨_, rfl⟩
    · exact .refl _
    · exact .setChan ..
  | cleanScan c' | irqFinish c' | irqLost c' n | irqOverflow c' =>
    cases h
    exact .setChan ..
  | timerExpire c' =>
    obtain ⟨m₁, h₁, h⟩ := bind_ok.mp h
    cases h
    obtain ⟨_, _, rfl⟩ := timerExpire_ok.mp h₁
    exact .setChan ..
  | timerRun c' =>
    obtain ⟨m₁, h₁, h⟩ := bind_ok.mp h
    cases h
    obtain ⟨_, rfl⟩ := timerRun_ok.mp h₁
    exact .setChan ..
  | workTake c' =>
    obtain ⟨m₁, h₁, h⟩ := bind_ok.mp h
    cases h
    obtain ⟨_, _, rfl⟩ := workTake_ok.mp h₁
    exact .setChan ..
  | workRun c' =>
    obtain ⟨m₁, h₁, h⟩ := bind_ok.mp h
    cases h
    obtain ⟨_, ⟨_, rfl⟩ | ⟨_, _, rfl⟩⟩ := workRun_ok.mp h₁
    · exact .setChan ..
    · exact .setChan ..
  | _ => cases hk

/-- The clean-up finds the flag of every channel where a start sets it, and no other. -/
structure FlagsRead (m : Men) : Prop where
  reads : ∀ j i c, (j, i, c) ∈ fpgaChannels m → j = (m.chan c).fpga ∧ i = (m.chan c).number
  covers : ∀ c, c < m.dmacnt.sum → ((m.chan c).fpga, (m.chan c).number, c) ∈ fpgaChannels m

/-- The process that made the last successful start of a running channel has a thread
group, and the channel is flagged there. -/
structure Owned (m : Men) : Prop where
  use : m.use = m.files.length
  ids : (m.groups.map ThreadGroup.id).Nodup
  cnt : ∀ a tg, meGetThreadgroup m a = some tg → 1 ≤ tg.cnt ∧ tg.cnt ≤ m.files.count a
  owner : ∀ c, c < m.dmacnt.sum → (m.chan c).state = .started →
    ∃ a tg, (m.chan c).starter = some a ∧ meGetThreadgroup m a = some tg ∧
      tg.dmas (m.chan c).fpga (m.chan c).number = true

/-- The last handle of the group goes: what the group runs still has frames to come, and
no channel of somebody else that runs is flagged. -/
def Cleanable (m : Men) (owner : Tgid) : Prop :=
  ∀ tg, meGetThreadgroup m owner = some tg → tg.cnt = 1 → ∀ c, c < m.dmacnt.sum →
    (m.chan c).state = .started →
      ((m.chan c).starter = some owner → 0 < (m.chan c).transferTodo) ∧
      ((m.chan c).starter ≠ some owner → tg.dmas (m.chan c).fpga (m.chan c).number = true →
        (m.chan c).transferTodo ≤ 0)

/-- A process starts channels with a thread group of its own, and closes the handles it
opened. -/
def OwnHandles (m : Men) : Call → Prop
  | .startTail _ _ current | .startRest _ _ current => ∃ tg, meGetThreadgroup m current = some tg
  | .close owner current => current = owner ∧ Cleanable m owner
  | _ => True

section Cleanup
variable {dmas : Nat → Nat → Bool} {l : List (Nat × Nat × ChanRef)}

theorem Dmachan.MaybeStopped.not_started {ch ch' : Dmachan} (h : ch.MaybeStopped ch')
    (hst : ch.state ≠ .started) : ch' = ch := by
  cases h with
  | same => rfl
  | stopped hs _ => exact absurd hs hst

theorem Dmachan.MaybeStopped.started {ch ch' : Dmachan} (h : ch.MaybeStopped ch')
    (hst : ch'.state = .started) : ch' = ch := by
  cases h with
  | same => rfl
  | stopped => cases hst

theorem cleanupFlagged_stops {j i : Nat} (hmem : (j, i, c) ∈ l) (hf : dmas j i = true)
    (ht : 0 < (m.chan c).transferTodo) : ((cleanupFlagged m dmas l).chan c).state ≠ .started := by
  induction l generalizing m with
  | nil => cases hmem
  | cons x l ih =>
    obtain ⟨j', i', c'⟩ := x
    have stay : ∀ m₀ : Men, (m₀.chan c).state ≠ .started →
        ((cleanupFlagged m₀ dmas l).chan c).state ≠ .started := by
      intro m₀ h₀
      rw [(cleanupFlagged_chan dmas l c).not_started h₀]
      exact h₀
    unfold cleanupFlagged
    rcases List.mem_cons.mp hmem with heq | hmem
    · cases heq
      rw [if_pos hf]
      apply stay
      rcases menStopDma_cases m c with ⟨hno, he⟩ | ⟨_, _, he⟩
      · rw [he]
        intro hst
        have := hno hst
        omega
      · simp [he]
    · split_ifs
      · generalize hm₁ : menStopDma m c' = m₁
        have hms := menStopDma_chan m c' c
        rw [hm₁] at hms
        by_cases hst : (m₁.chan c).state = .started
        · exact ih hmem (by rw [hms.started hst]; exact ht)
        · exact stay m₁ hst
      · exact ih hmem ht

theorem cleanupFlagged_leaves (hl : ∀ j i, (j, i, c) ∈ l → dmas j i = true →
    (m.chan c).state = .started → (m.chan c).transferTodo ≤ 0) :
    (cleanupFlagged m dmas l).chan c = m.chan c := by
  induction l generalizing m with
  | nil => rfl
  | cons x l ih =>
    obtain ⟨j, i, c'⟩ := x
    have hstep : (if dmas j i = true then menStopDma m c' else m).chan c = m.chan c := by
      split_ifs with hf
      · rcases menStopDma_cases m c' with ⟨_, he⟩ | ⟨hst, ht, he⟩
        · rw [he]
        · rw [he, Men.setChan_chan, if_neg]
          rintro rfl
          have := hl j i List.mem_cons_self hf hst
          omega
      · rfl
    unfold cleanupFlagged
    rw [ih, hstep]
    intro j' i' hmem hf
    rw [hstep]
    exact hl j' i' (List.mem_cons_of_mem _ hmem) hf

end Cleanup

theorem chanStep_kept {k : Call} {ch ch' : Dmachan} (h : ChanStep c k o ch ch') :
    ch'.number = ch.number ∧ ch'.fpga = ch.fpga := by
  cases h with
  | still _ hq => exact ⟨hq.control.number, hq.control.fpga⟩
  | frame hq => exact ⟨hq.control.number, hq.control.fpga⟩
  | startDone _ _ h => exact ⟨h.number, h.fpga⟩
  | startFailed _ _ h => exact ⟨h.number, h.fpga⟩
  | stopped h | closed h => cases h <;> exact ⟨rfl, rfl⟩
  | irqScanned _ h => exact ⟨h.quiet.control.number, h.quiet.control.fpga⟩
  | _ => exact ⟨rfl, rfl⟩

/-- Only a start makes a channel run. -/
theorem chanStep_started {k : Call} {ch ch' : Dmachan} (h : ChanStep c k o ch ch')
    (hst : ch'.state = .started) : (ch.state = .started ∧ ch'.starter = ch.starter) ∨
      ∃ w current, k.Starts w current ∧ w.chan = c ∧ o = .done none ∧ ch.StartDone w current ch' := by
  cases h with
  | still _ hq => exact .inl ⟨hq.control.state.symm.trans hst, hq.control.starter⟩
  | frame hq => exact .inl ⟨hq.control.state.symm.trans hst, hq.control.starter⟩
  | startDone hk hw h => exact .inr ⟨_, _, hk, hw, rfl, h⟩
  | startFailed _ _ h => exact absurd (h.state.symm.trans hst) (by simp)
  | resumeHalted | timedOut | workHalted | irqFinished => cases hst
  | stopped h | closed h =>
    cases h with
    | same => exact .inl ⟨hst, rfl⟩
    | stopped => cases hst
  | irqScanned _ h => exact .inl ⟨h.quiet.control.state.symm.trans hst, h.quiet.control.starter⟩
  | _ => exact .inl ⟨hst, rfl⟩

theorem startPrepared_owners (m : Men) (c : ChanRef) (h : HeadRef) (startbuf : Nat) :
    SameOwners m (startPrepared m c h startbuf) := by
  rw [startPrepared_eq]
  have h₁ : SameOwners m (startCleared m c h) := by
    unfold startCleared unlinkActive
    split
    · exact .setChan ..
    · split_ifs <;> exact ⟨rfl, rfl, rfl, rfl, rfl⟩
  exact (h₁.trans (cleanBhLoop_frame _).sameOwners).trans ⟨rfl, rfl, rfl, rfl, rfl⟩

theorem startdma_owners {h : HeadRef} {startbuf : Nat} {hw : StartHw} {ret : Ret}
    (hc : startdma (startPrepared m c h startbuf) c hw = .ok (m', ret)) : SameOwners m m' :=
  ((startPrepared_owners m c h startbuf).trans (.setChan ..)).trans (startdma_frame hc).sameOwners

/-- The flag of the channel `c` is set in the group of `current`. -/
structure SetsFlag (c : ChanRef) (current : Tgid) (m m' : Men) : Prop where
  groups : m'.groups =
    modThreadgroup current (·.setFlag (m'.chan c).fpga (m'.chan c).number true) m.groups
  use : m'.use = m.use
  files : m'.files = m.files
  dmacnt : m'.dmacnt = m.dmacnt
  activeFpgas : m'.activeFpgas = m.activeFpgas

theorem fgStartTail_owners {w : StartWait} {hw : StartHw} {current : Tgid} {ret : Ret}
    (hc : fgStartTail m w hw current = .ok (m', ret)) :
    ret = none ∧ SetsFlag w.chan current m m' ∨ ret ≠ none ∧ SameOwners m m' := by
  have hset : SameOwners m (fgStartSetup m w.fgr w.chan) := .setChan ..
  rcases fgStartTail_cases hc with ⟨rfl, h₁⟩ | ⟨e, m₁, rfl, h₁, h₂⟩
  · rcases menStartDma_cases h₁ with ⟨_, _, hr⟩
      | ⟨_, ⟨_, _, _, hr⟩ | ⟨_, m₂, r, h₂, ⟨e, _, _, hr⟩ | ⟨_, rfl, _⟩⟩⟩
    · cases hr
    · cases hr
    · cases hr
    · have hs := hset.trans (startdma_owners h₂)
      refine .inl ⟨rfl, ?_, hs.use, hs.files, hs.dmacnt, hs.activeFpgas⟩
      simp [menStartDmaDone, hs.groups]
  · obtain ⟨_, _, rfl⟩ := menDmaCleanHalt_ok.mp h₂
    have hhalt : SameOwners m₁ (m₁.setChan w.chan { (m₁.chan w.chan).record .stopdma with
        timer := false, state := .stopped, transferTodo := 0 }) := .setChan ..
    refine .inr ⟨by simp, SameOwners.trans ?_ hhalt⟩
    rcases menStartDma_cases h₁ with ⟨_, rfl, _⟩
      | ⟨_, ⟨_, _, rfl, _⟩ | ⟨_, m₂, r, h₃, ⟨e, _, rfl, _⟩ | ⟨_, _, hr⟩⟩⟩
    · exact hset
    · refine (hset.trans ?_).trans (.setChan ..)
      exact startPrepared_owners ..
    · exact (hset.trans (startdma_owners h₃)).trans (.setChan ..)
    · cases hr

theorem meGetThreadgroup_congr {m m' : Men} (h : m'.groups = m.groups) (a : Tgid) :
    meGetThreadgroup m' a = meGetThreadgroup m a := by
  unfold meGetThreadgroup
  rw [h]

theorem Owned.congr {m m' : Men} (ho : Owned m) (hs : SameOwners m m')
    (hch : ∀ c, (m'.chan c).number = (m.chan c).number ∧ (m'.chan c).fpga = (m.chan c).fpga)
    (hst : ∀ c, (m'.chan c).state = .started →
      (m.chan c).state = .started ∧ (m'.chan c).starter = (m.chan c).starter) : Owned m' where
  use := by rw [hs.use, hs.files, ho.use]
  ids := hs.groups ▸ ho.ids
  cnt a tg h := by
    rw [meGetThreadgroup_congr hs.groups] at h
    rw [hs.files]
    exact ho.cnt a tg h
  owner c hc h := by
    obtain ⟨hold, hstarter⟩ := hst c h
    obtain ⟨a, tg, ha, htg, hf⟩ := ho.owner c (hs.dmacnt ▸ hc) hold
    refine ⟨a, tg, hstarter.trans ha, (meGetThreadgroup_congr hs.groups a).trans htg, ?_⟩
    rw [(hch c).1, (hch c).2]
    exact hf

/-- A flag that is set is set afterwards, whatever flag is set. -/
theorem ThreadGroup.setFlag_dmas (tg : ThreadGroup) (fpga number j i : Nat) :
    (tg.setFlag fpga number true).dmas j i = (decide (j = fpga ∧ i = number) || tg.dmas j i) := by
  unfold ThreadGroup.setFlag
  by_cases hj : j = fpga
  · subst hj
    by_cases hi : i = number
    · simp [hi]
    · simp [hi]
  · simp [hj]

theorem Owned.setsFlag {m m' : Men} {current : Tgid} {tg₀ : ThreadGroup} (ho : Owned m)
    (hs : SetsFlag c current m m') (htg₀ : meGetThreadgroup m current = some tg₀)
    (hstarter : (m'.chan c).starter = some current) (hother : ∀ c', c' ≠ c → m'.chan c' = m.chan c') :
    Owned m' := by
  have hfind : ∀ a, meGetThreadgroup m' a = if a = current then
      (meGetThreadgroup m a).map (·.setFlag (m'.chan c).fpga (m'.chan c).number true)
      else meGetThreadgroup m a := by
    intro a
    unfold meGetThreadgroup
    rw [hs.groups]
    exact find_modThreadgroup fun _ h => h
  refine ⟨by rw [hs.use, hs.files, ho.use], ?_, fun a tg h => ?_, fun c' hc' hst => ?_⟩
  · rw [hs.groups, ids_modThreadgroup (by exact fun _ h => h)]
    exact ho.ids
  · rw [hfind] at h
    rw [hs.files]
    split_ifs at h with ha
    · obtain ⟨tg', htg', rfl⟩ := Option.map_eq_some_iff.mp h
      exact ho.cnt a tg' htg'
    · exact ho.cnt a tg h
  · by_cases hcc : c' = c
    · subst hcc
      refine ⟨current, tg₀.setFlag (m'.chan c').fpga (m'.chan c').number true, hstarter, ?_, ?_⟩
      · rw [hfind, if_pos rfl, htg₀]
        rfl
      · simp [ThreadGroup.setFlag_dmas]
    · rw [hother c' hcc] at hst ⊢
      obtain ⟨a, tg, ha, htg, hf⟩ := ho.owner c' (hs.dmacnt ▸ hc') hst
      by_cases hac : a = current
      · refine ⟨a, tg.setFlag (m'.chan c).fpga (m'.chan c).number true, ha, ?_, ?_⟩
        · rw [hfind, if_pos hac, htg]
          rfl
        · simp [ThreadGroup.setFlag_dmas, hf]
      · exact ⟨a, tg, ha, by rw [hfind, if_neg hac, htg], hf⟩

theorem menableOpen_owned {current : Tgid} {alloc : Bool} (ho : Owned m) :
    Owned (menableOpen m current alloc) := by
  unfold menableOpen
  dsimp only
  have huse : m.use + 1 = ((current :: m.files).length : Int) := by
    have := ho.use
    simp only [List.length_cons]
    omega
  have hcount : ∀ a, m.files.count a ≤ (current :: m.files).count a := fun a =>
    List.count_le_count_cons
  split
  · rename_i tg₀ htg₀
    have hfind : ∀ a, meGetThreadgroup { m with
        use := m.use + 1
        files := current :: m.files
        groups := modThreadgroup current (fun tg => { tg with cnt := tg.cnt + 1 }) m.groups } a =
        if a = current then (meGetThreadgroup m a).map fun tg => { tg with cnt := tg.cnt + 1 }
        else meGetThreadgroup m a := fun a => find_modThreadgroup fun _ h => h
    refine ⟨huse, ?_, fun a tg h => ?_, fun c hc hst => ?_⟩
    · dsimp only
      rw [ids_modThreadgroup (by exact fun _ h => h)]
      exact ho.ids
    · rw [hfind] at h
      split_ifs at h with ha
      · obtain ⟨tg', htg', rfl⟩ := Option.map_eq_some_iff.mp h
        obtain ⟨_, hle⟩ := ho.cnt a tg' htg'
        subst ha
        simp only [List.count_cons_self]
        omega
      · obtain ⟨hpos, hle⟩ := ho.cnt a tg h
        exact ⟨hpos, Nat.le_trans hle (hcount a)⟩
    · obtain ⟨a, tg, ha, htg, hf⟩ := ho.owner c hc hst
      by_cases hac : a = current
      · exact ⟨a, { tg with cnt := tg.cnt + 1 }, ha, by rw [hfind, if_pos hac, htg]; rfl, hf⟩
      · exact ⟨a, tg, ha, by rw [hfind, if_neg hac, htg], hf⟩
  · rename_i hnone
    simp only [meGetThreadgroup, List.find?_eq_none, decide_eq_true_eq] at hnone
    split_ifs
    · have hfind : ∀ a tg, meGetThreadgroup { m with
          use := m.use + 1
          files := current :: m.files
          groups := m.groups ++ [{ id := current, cnt := 1, dmas := fun _ _ => false }] } a = some tg ↔
          meGetThreadgroup m a = some tg ∨
            meGetThreadgroup m a = none ∧ current = a ∧ { id := current, cnt := 1, dmas := fun _ _ =>
              false } = tg := by
        intro a tg
        simp only [meGetThreadgroup, List.find?_append, Option.or_eq_some_iff]
        by_cases ha : current = a
        · simp [ha]
        · simp [ha]
      refine ⟨huse, ?_, fun a tg h => ?_, fun c hc hst => ?_⟩
      · simp only [List.map_append, List.map_cons, List.map_nil]
        refine List.nodup_append.mpr ⟨ho.ids, by simp, ?_⟩
        rintro x hx y hy rfl
        obtain ⟨tg, htg, hid⟩ := List.mem_map.mp hx
        exact hnone tg htg (hid.trans (List.mem_singleton.mp hy))
      · rcases (hfind a tg).mp h with h | ⟨_, rfl, rfl⟩
        · obtain ⟨hpos, hle⟩ := ho.cnt a tg h
          exact ⟨hpos, Nat.le_trans hle (hcount a)⟩
        · simp
      · obtain ⟨a, tg, ha, htg, hf⟩ := ho.owner c hc hst
        exact ⟨a, tg, ha, (hfind a tg).mpr (.inl htg), hf⟩
    · refine ⟨huse, ho.ids, fun a tg h => ?_, ho.owner⟩
      obtain ⟨hpos, hle⟩ := ho.cnt a tg h
      exact ⟨hpos, Nat.le_trans hle (hcount a)⟩

/-- What the close of a handle of `owner` does to the board. -/
structure Closes (owner : Tgid) (m m' : Men) : Prop where
  files : m'.files = m.files.erase owner
  use : m'.use = m.use - 1
  dmacnt : m'.dmacnt = m.dmacnt
  activeFpgas : m'.activeFpgas = m.activeFpgas
  ids : (m'.groups.map ThreadGroup.id).Nodup
  others : ∀ a, a ≠ owner → meGetThreadgroup m' a = meGetThreadgroup m a
  own : meGetThreadgroup m' owner = (meGetThreadgroup m owner).bind fun tg =>
    if tg.cnt - 1 = 0 then none else some { tg with cnt := tg.cnt - 1 }
  kept : ∀ c, (m.chan c).MaybeStopped (m'.chan c)
  stops : ∀ tg, meGetThreadgroup m owner = some tg → tg.cnt - 1 = 0 → ∀ j i c,
    (j, i, c) ∈ fpgaChannels m → tg.dmas j i = true → 0 < (m.chan c).transferTodo →
      (m'.chan c).state ≠ .started
  leaves : ∀ c, (∀ tg, meGetThreadgroup m owner = some tg → tg.cnt - 1 = 0 → ∀ j i,
      (j, i, c) ∈ fpgaChannels m → tg.dmas j i = true → (m.chan c).state = .started →
        (m.chan c).transferTodo ≤ 0) →
    (m.use - 1 = 0 → (m.chan c).state ≠ .started) → m'.chan c = m.chan c

theorem menableReleaseGroup_cases (m : Men) (owner : Tgid) :
    (meGetThreadgroup m owner = none ∧ menableReleaseGroup m owner = m) ∨
      ∃ tg tg', meGetThreadgroup m owner = some tg ∧ tg' = { tg with cnt := tg.cnt - 1 } ∧
        ((tg.cnt - 1 ≠ 0 ∧
            menableReleaseGroup m owner = { m with groups := modThreadgroup owner (fun _ => tg') m.groups }) ∨
          (tg.cnt - 1 = 0 ∧ menableReleaseGroup m owner = menCleanupThreadgroup
            { m with groups := modThreadgroup owner (fun _ => tg') m.groups } tg')) := by
  unfold menableReleaseGroup
  cases htg : meGetThreadgroup m owner with
  | none => exact .inl ⟨rfl, rfl⟩
  | some tg =>
    refine .inr ⟨tg, _, rfl, rfl, ?_⟩
    by_cases h0 : tg.cnt - 1 = 0
    · exact .inr ⟨h0, by simp [h0]⟩
    · exact .inl ⟨h0, by simp [h0]⟩

theorem menableReleaseGroup_closes {owner : Tgid} (hids : (m.groups.map ThreadGroup.id).Nodup) :
    ∃ m₁, menableReleaseGroup { m with files := m.files.erase owner } owner = m₁ ∧ m₁.use = m.use ∧
      Closes owner m { m₁ with use := m.use - 1 } := by
  have hkept := (menableReleaseGroup_effect { m with files := m.files.erase owner } owner).2
  rcases menableReleaseGroup_cases { m with files := m.files.erase owner } owner with
    ⟨hnone, he⟩ | ⟨tg, tg', htg, htg', hcase⟩
  · change meGetThreadgroup m owner = none at hnone
    rw [he]
    exact ⟨_, rfl, rfl, rfl, rfl, rfl, rfl, hids, fun _ _ => rfl,
      (by rw [hnone]; exact hnone), fun _ => .same,
      fun tg h => (by rw [hnone] at h; cases h), fun _ _ _ => rfl⟩
  · change meGetThreadgroup m owner = some tg at htg
    dsimp only at hcase
    have hid : tg'.id = owner := by
      rw [htg']
      simpa using List.find?_some htg
    have hfind : ∀ a, (modThreadgroup owner (fun _ => tg') m.groups).find? (fun g => decide (g.id = a)) =
        if a = owner then some tg' else meGetThreadgroup m a := by
      intro a
      rw [find_modThreadgroup fun _ _ => hid]
      split_ifs with ha
      · rw [ha, show m.groups.find? _ = some tg from htg]
        rfl
      · rfl
    have hids' : ((modThreadgroup owner (fun _ => tg') m.groups).map ThreadGroup.id).Nodup := by
      rw [ids_modThreadgroup fun _ _ => hid]
      exact hids
    rcases hcase with ⟨h0, he⟩ | ⟨h0, he⟩
    · rw [he]
      refine ⟨_, rfl, rfl, rfl, rfl, rfl, rfl, hids', fun a ha => ?_, ?_,
        fun _ => .same, fun tg₁ h h0' => ?_, fun _ _ _ => rfl⟩
      · exact (hfind a).trans (if_neg ha)
      · rw [htg, Option.bind_some, if_neg h0]
        exact (hfind owner).trans (by rw [if_pos rfl, htg'])
      · rw [htg] at h
        cases h
        exact absurd h0' h0
    · have hdmas : tg'.dmas = tg.dmas := by rw [htg']
      rw [he] at hkept ⊢
      generalize hX : ({ m with
        files := m.files.erase owner
        groups := modThreadgroup owner (fun _ => tg') m.groups } : Men) = X at hkept ⊢
      have hch : X.chan = m.chan := by rw [← hX]
      have hfp : fpgaChannels X = fpgaChannels m := by rw [← hX]; rfl
      unfold menCleanupThreadgroup at hkept ⊢
      have hstop : ∀ j i c, (j, i, c) ∈ fpgaChannels X → tg'.dmas j i = true → 0 < (X.chan c).transferTodo →
          ((cleanupFlagged X tg'.dmas (fpgaChannels X)).chan c).state ≠ .started :=
        fun _ _ _ => cleanupFlagged_stops
      have hleave : ∀ c, (∀ j i, (j, i, c) ∈ fpgaChannels X → tg'.dmas j i = true →
          (X.chan c).state = .started → (X.chan c).transferTodo ≤ 0) →
          (cleanupFlagged X tg'.dmas (fpgaChannels X)).chan c = X.chan c := fun _ => cleanupFlagged_leaves
      obtain ⟨chan, hb⟩ := cleanupFlagged_board X tg'.dmas (fpgaChannels X)
      rw [hb] at hkept hstop hleave ⊢
      rw [hfp, hch, hdmas] at hstop hleave
      subst hX
      refine ⟨_, rfl, rfl, rfl, rfl, rfl, rfl, ?_, fun a ha => ?_, ?_, hkept, ?_, ?_⟩
      · exact hids'.sublist ((List.eraseP_sublist).map _)
      · unfold meGetThreadgroup
        dsimp only
        rw [hid, find_eraseP_other ha]
        exact (hfind a).trans (if_neg ha)
      · rw [htg, Option.bind_some, if_pos h0]
        unfold meGetThreadgroup
        dsimp only
        rw [hid]
        exact find_eraseP_self hids'
      · intro tg₁ h _ j i c hji hf ht
        rw [htg] at h
        cases h
        exact hstop j i c hji hf ht
      · intro c hno _
        exact hleave c fun j i hji hf hst => hno tg htg h0 j i hji hf hst

theorem menableRelease_closes {owner : Tgid} {last : Bool} (hids : (m.groups.map ThreadGroup.id).Nodup)
    (hc : menableRelease m owner owner = .ok (m', last)) : owner ∈ m.files ∧ Closes owner m m' := by
  have hkept := (menableRelease_effect hc).2
  unfold menableRelease at hc
  split_ifs at hc with hmem
  refine ⟨hmem, ?_⟩
  obtain ⟨m₁, he, huse, hcl⟩ := menableReleaseGroup_closes hids
  rw [he] at hc
  dsimp only at hc
  rw [huse] at hc
  split_ifs at hc with hlast
  · cases hc
    have hch := fun c => (menCleanupChannels_effect { m₁ with use := m.use - 1 }).2 c
    obtain ⟨⟨chan, hb⟩, _⟩ := menCleanupChannels_effect { m₁ with use := m.use - 1 }
    rw [hb] at hch hkept ⊢
    refine ⟨hcl.files, hcl.use, hcl.dmacnt, hcl.activeFpgas, hcl.ids, hcl.others, hcl.own, hkept, ?_, ?_⟩
    · intro tg htg h0 j i c hji hf ht hst
      have hns := hcl.stops tg htg h0 j i c hji hf ht
      rw [(hch c).not_started hns] at hst
      exact hns hst
    · intro c hno hst
      exact (hkept c).not_started (hst hlast)
  · cases hc
    exact hcl

theorem FlagsRead.congr {m m' : Men} (hf : FlagsRead m) (hd : m'.dmacnt = m.dmacnt)
    (ha : m'.activeFpgas = m.activeFpgas)
    (hch : ∀ c, (m'.chan c).number = (m.chan c).number ∧ (m'.chan c).fpga = (m.chan c).fpga) :
    FlagsRead m' := by
  have hfp : fpgaChannels m' = fpgaChannels m := by
    unfold fpgaChannels
    rw [hd, ha]
  refine ⟨fun j i c h => ?_, fun c hc => ?_⟩
  · rw [(hch c).1, (hch c).2]
    exact hf.reads j i c (hfp ▸ h)
  · rw [(hch c).1, (hch c).2, hfp]
    exact hf.covers c (hd ▸ hc)

/-- A channel that its group leaves running is not there any more. -/
theorem Closes.not_started {owner : Tgid} {tg : ThreadGroup} (hcl : Closes owner m m') (hf : FlagsRead m)
    (ho : Owned m) (hclean : Cleanable m owner) (htg : meGetThreadgroup m owner = some tg)
    (h0 : tg.cnt - 1 = 0) (hc : c < m.dmacnt.sum) (hs : (m.chan c).starter = some owner) :
    (m'.chan c).state ≠ .started := by
  intro hst
  have hsame := (hcl.kept c).started hst
  have hst' : (m.chan c).state = .started := hsame ▸ hst
  obtain ⟨a, tg', ha, htg', hflag⟩ := ho.owner c hc hst'
  rw [hs] at ha
  cases ha
  rw [htg] at htg'
  cases htg'
  have h1 : tg.cnt = 1 := by
    have := (ho.cnt owner tg htg).1
    omega
  exact hcl.stops tg htg h0 _ _ c (hf.covers c hc) hflag ((hclean tg htg h1 c hc hst').1 hs) hst

theorem Closes.owned {owner : Tgid} (hcl : Closes owner m m') (hf : FlagsRead m) (ho : Owned m)
    (hmem : owner ∈ m.files) (hclean : Cleanable m owner) : Owned m' := by
  refine ⟨?_, hcl.ids, fun a tg h => ?_, fun c hc hst => ?_⟩
  · have huse := ho.use
    have hlen := List.length_erase_of_mem hmem
    have hpos := List.length_pos_of_mem hmem
    rw [hcl.use, hcl.files]
    omega
  · rw [hcl.files]
    by_cases ha : a = owner
    · subst ha
      rw [hcl.own] at h
      obtain ⟨tg₀, htg₀, h⟩ := Option.bind_eq_some_iff.mp h
      split_ifs at h with h0
      cases h
      have := (ho.cnt a tg₀ htg₀).2
      rw [List.count_erase_self]
      dsimp only
      omega
    · rw [hcl.others a ha] at h
      rw [List.count_erase_of_ne ha]
      exact ho.cnt a tg h
  · have hsame := (hcl.kept c).started hst
    rw [hcl.dmacnt] at hc
    obtain ⟨a, tg, ha, htg, hflag⟩ := ho.owner c hc (hsame ▸ hst)
    rw [hsame]
    by_cases hao : a = owner
    · subst hao
      have h0 : tg.cnt - 1 ≠ 0 := fun h0 => hcl.not_started hf ho hclean htg h0 hc ha hst
      refine ⟨a, { tg with cnt := tg.cnt - 1 }, ha, ?_, hflag⟩
      rw [hcl.own, htg, Option.bind_some, if_neg h0]
    · exact ⟨a, tg, ha, (hcl.others a hao).trans htg, hflag⟩

/-- The close of the last handle of `owner` stops what `owner` started last, and touches
nothing that another group started last. -/
def CleansUp (owner : Tgid) (m m' : Men) : Prop :=
  ∀ c, c < m.dmacnt.sum →
    ((m.chan c).starter = some owner → (m'.chan c).state ≠ .started) ∧
      ∀ a, (m.chan c).starter = some a → a ≠ owner → m'.chan c = m.chan c

theorem Closes.cleansUp {owner : Tgid} (hcl : Closes owner m m') (hf : FlagsRead m) (ho : Owned m)
    (hmem : owner ∈ m.files) (hclean : Cleanable m owner) (hlast : m.files.count owner = 1) :
    CleansUp owner m m' := by
  intro c hc
  constructor
  · intro hs hst
    have hsame := (hcl.kept c).started hst
    obtain ⟨a, tg, ha, htg, _⟩ := ho.owner c hc (hsame ▸ hst)
    rw [hs] at ha
    cases ha
    have hcnt := (ho.cnt owner tg htg).2
    exact hcl.not_started hf ho hclean htg (by omega) hc hs hst
  · intro a ha hne
    refine hcl.leaves c (fun tg htg h0 j i hji hfl hst => ?_) fun huse hst => ?_
    · obtain ⟨rfl, rfl⟩ := hf.reads j i c hji
      have hcnt := (ho.cnt owner tg htg).1
      exact (hclean tg htg (by omega) c hc hst).2 (fun hs => hne (Option.some.inj (ha.symm.trans hs))) hfl
    · -- the last user of the board is not the owner of the channel
      obtain ⟨a', tg, ha', htg, _⟩ := ho.owner c hc hst
      obtain rfl : a = a' := Option.some.inj (ha.symm.trans ha')
      have hpos := ho.cnt a tg htg
      have hlen : m.files.length = 1 := by
        have := ho.use
        omega
      obtain ⟨x, hx⟩ := List.length_eq_one_iff.mp hlen
      rw [hx, List.mem_singleton] at hmem
      rw [hx, hmem.symm, List.count_singleton] at hpos
      simp [Ne.symm hne] at hpos
      omega

/-- The state of the clean-up that a run keeps. -/
structure Accounted (m : Men) : Prop extends Owned m where
  flags : FlagsRead m

theorem start_accounted {w : StartWait} {current : Tgid} {k : Call} (hk : k.Starts w current)
    (ha : Accounted m) (hg : ∃ tg, meGetThreadgroup m current = some tg) (hc : call m k = .ok (m', o)) :
    Accounted m' := by
  have hch := call_chan hc
  have hkept := fun c => chanStep_kept (hch c)
  rcases hk.runs hc with ⟨rfl, _⟩ | ⟨hw, ret, _, h₁, rfl⟩
  · exact ha
  · rcases fgStartTail_owners h₁ with ⟨rfl, hs⟩ | ⟨hne, hs⟩
    · obtain ⟨tg, htg⟩ := hg
      refine ⟨ha.toOwned.setsFlag hs htg (fgStartTail_done h₁).starter fun c' hc' =>
        fgStartTail_other h₁ hc', ?_⟩
      exact ha.flags.congr hs.dmacnt hs.activeFpgas hkept
    · refine ⟨ha.toOwned.congr hs hkept fun c hst => ?_, ha.flags.congr hs.dmacnt hs.activeFpgas hkept⟩
      rcases chanStep_started (hch c) hst with h | ⟨_, _, _, _, ho, _⟩
      · exact h
      · cases ret with
        | none => exact absurd rfl hne
        | some e => cases ho

theorem call_accounted {k : Call} (hG : OwnHandles m k) (ha : Accounted m) (h : call m k = .ok (m', o)) :
    Accounted m' := by
  have hkept := fun c => chanStep_kept (call_chan h c)
  cases hk : k.changesOwners with
  | false =>
    have hs := call_sameOwners hk h
    refine ⟨ha.toOwned.congr hs hkept fun c hst => ?_, ha.flags.congr hs.dmacnt hs.activeFpgas hkept⟩
    rcases chanStep_started (call_chan h c) hst with h | ⟨w, current, hstart, _⟩
    · exact h
    · cases hstart <;> cases hk
  | true =>
    cases k with
    | openFile current alloc =>
      simp only [call, Except.ok.injEq, Prod.mk.injEq] at h
      obtain ⟨rfl, _⟩ := h
      obtain ⟨_, _, _, hb⟩ := menableOpen_board m current alloc
      exact ⟨menableOpen_owned ha.toOwned, ha.flags.congr (by rw [hb]) (by rw [hb]) hkept⟩
    | close owner current =>
      obtain ⟨⟨m₁, last⟩, h₁, h⟩ := bind_ok.mp h
      cases h
      obtain ⟨rfl, hclean⟩ := hG
      obtain ⟨hmem, hcl⟩ := menableRelease_closes ha.ids h₁
      exact ⟨hcl.owned ha.flags ha.toOwned hmem hclean, ha.flags.congr hcl.dmacnt hcl.activeFpgas hkept⟩
    | startTail w hw current => exact start_accounted (.tail hw) ha hG h
    | startRest w hw current => exact start_accounted (.rest hw) ha hG h
    | _ => cases hk

/-- The guard of the calls, for the events of the driver. -/
def OwnHandlesOnly (s : Sys) : Event → Prop
  | .run k => OwnHandles s.men k
  | .irqEnter .. => True

theorem step_accounted {s t : Sys} {e : Event} (hG : OwnHandlesOnly s e) (ha : Accounted s.men)
    (h : step s e = .ok t) : Accounted t.men := by
  cases e with
  | irqEnter c newFrames =>
    obtain ⟨_, _, rfl⟩ := step_irqEnter h
    exact ha
  | run k =>
    obtain ⟨m, o, hcall, _, rfl⟩ := step_run h
    exact call_accounted hG ha hcall

theorem accounted_probe {activeFpgas : Nat} {dmacnt : List Nat} {fpga : ChanRef → Nat} {fifo : UInt32}
    (hf : FlagsRead (menProbe activeFpgas dmacnt fpga fifo)) :
    Accounted (menProbe activeFpgas dmacnt fpga fifo) :=
  ⟨⟨rfl, List.nodup_nil, fun _ _ h => (by cases h), fun _ _ h => (by cases h)⟩, hf⟩

/-- On a board whose channels are flagged where they are looked up, and in a run whose
steps keep to the guard, the close of the last handle of a thread group stops exactly
what is the group's to stop. -/
theorem close_cleansUp {activeFpgas : Nat} {dmacnt : List Nat} {fpga : ChanRef → Nat} {fifo : UInt32}
    {es : List Event} {owner current : Tgid} {s t : Sys}
    (hf : FlagsRead (menProbe activeFpgas dmacnt fpga fifo))
    (hG : Meets step OwnHandlesOnly (sysProbe activeFpgas dmacnt fpga fifo) es)
    (hs : run step (sysProbe activeFpgas dmacnt fpga fifo) es = .ok s)
    (hclose : OwnHandlesOnly s (.run (.close owner current)))
    (hlast : s.men.files.count owner = 1) (ht : step s (.run (.close owner current)) = .ok t) :
    CleansUp owner s.men t.men := by
  have ha : Accounted s.men := run_invariant (P := fun s => Accounted s.men)
    (fun _ _ _ hG ha h => step_accounted hG ha h) hG (accounted_probe hf) hs
  obtain ⟨rfl, hclean⟩ := hclose
  obtain ⟨m, o, hcall, _, rfl⟩ := step_run ht
  obtain ⟨⟨m₁, last⟩, h₁, h⟩ := bind_ok.mp hcall
  cases h
  obtain ⟨hmem, hcl⟩ := menableRelease_closes ha.ids h₁
  exact hcl.cleansUp ha.flags ha.toOwned hmem hclean hlast

section Example

def forever (chan : Nat) : FgCtrl :=
  { mode := 0x10, timeout := 0, transferTodo := -1, chan := chan, head := 0, startBuf := 0, dmaDir := 0 }

/-- The processes 1 and 2 open the board, and process 1 starts the channel. -/
def openStart (chan : Nat) : List Event :=
  [.run (.openFile 1 true), .run (.openFile 2 true), .run (.createHead 1 (some 7)),
    .run (.addBuffer { start := 0, length := 4096, subnr := 0, headnr := 0 } (some 3)),
    .run (.start (forever chan) 0), .run (.startTail ⟨forever chan, 7, chan⟩ .running 1)]

def startsInGroup (s : Sys) : Event → Bool
  | .run (.startTail _ _ current) => (meGetThreadgroup s.men current).isSome
  | .run (.startRest ..) | .run (.close ..) => false
  | _ => true

theorem startsInGroup_ownHandles (s : Sys) (e : Event) (h : startsInGroup s e = true) :
    OwnHandlesOnly s e := by
  cases e with
  | irqEnter => trivial
  | run k =>
    cases k with
    | startTail w hw current => exact Option.isSome_iff_exists.mp h
    | startRest | close => cases h
    | _ => trivial

theorem close_cleansUp_openStart : ∃ s t,
    run step (sysProbe 1 [1] (fun _ => 0) 8) (openStart 0) = .ok s ∧
      step s (.run (.close 1 1)) = .ok t ∧ CleansUp 1 s.men t.men := by
  obtain ⟨t, ht, _⟩ := exists_of_check step (sysProbe 1 [1] (fun _ => 0) 8)
    (openStart 0 ++ [.run (.close 1 1)]) (fun _ => true) (by decide +kernel)
  obtain ⟨s, hs, hp⟩ := exists_of_check step (sysProbe 1 [1] (fun _ => 0) 8) (openStart 0)
    (fun s => decide (s.men.dmacnt.sum = 1) && decide ((s.men.chan 0).starter = some 1) &&
      decide (0 < (s.men.chan 0).transferTodo) && decide (s.men.files.count 1 = 1)) (by decide +kernel)
  simp only [Bool.and_eq_true, decide_eq_true_eq] at hp
  obtain ⟨⟨⟨hsum, hstarter⟩, htodo⟩, hcount⟩ := hp
  obtain ⟨s', hs', ht⟩ := run_append_ok.mp ht
  obtain rfl : s = s' := Except.ok.inj (hs.symm.trans hs')
  obtain ⟨t', ht', _⟩ := run_cons_ok.mp ht
  refine ⟨s, t', hs, ht', close_cleansUp ⟨?_, ?_⟩ (meets_of_check startsInGroup_ownHandles (by decide +kernel))
    hs ⟨rfl, fun tg _ _ c hc _ => ?_⟩ hcount ht'⟩
  · simp only [fpgaChannels, fpgaChannelsFrom, menProbe, List.take, List.range, List.range.loop, List.map,
      List.append_nil, List.mem_singleton, Prod.mk.injEq]
    rintro j i c ⟨rfl, rfl, rfl⟩
    exact ⟨rfl, rfl⟩
  · simp [fpgaChannels, fpgaChannelsFrom, menProbe]
  · obtain rfl : c = 0 := by omega
    exact ⟨fun _ => htodo, fun hne => absurd hstarter hne⟩

/-- Process 1 stops its channel and process 2 starts it. -/
def startByOther : List Event :=
  openStart 0 ++ [.run (.stop 0), .run (.workTake 0), .run (.workRun 0), .run (.cleanScan 0),
    .run (.start (forever 0) 0), .run (.startTail ⟨forever 0, 7, 0⟩ .running 2)]

/-- Process 1 closes its handle: the channel of process 2 is stopped; and a channel of
process 1 on the second FPGA of a board is not. -/
theorem close_wrong :
    (∃ s t, run step (sysProbe 1 [1] (fun _ => 0) 8) startByOther = .ok s ∧
      step s (.run (.close 1 1)) = .ok t ∧ s.men.files.count 1 = 1 ∧ ¬ CleansUp 1 s.men t.men) ∧
    ∃ s t, run step (sysProbe 2 [1, 1] id 8) (openStart 1) = .ok s ∧
      step s (.run (.close 1 1)) = .ok t ∧ s.men.files.count 1 = 1 ∧ ¬ CleansUp 1 s.men t.men := by
  constructor
  · obtain ⟨t, ht, hq⟩ := exists_of_check step (sysProbe 1 [1] (fun _ => 0) 8)
      (startByOther ++ [.run (.close 1 1)]) (fun t => decide ((t.men.chan 0).state = .stopping))
      (by decide +kernel)
    obtain ⟨s, hs, hp⟩ := exists_of_check step (sysProbe 1 [1] (fun _ => 0) 8) (startByOther)
      (fun s => decide (s.men.dmacnt.sum = 1) && decide ((s.men.chan 0).starter = some 2) &&
        decide ((s.men.chan 0).state = .started) && decide (s.men.files.count 1 = 1)) (by decide +kernel)
    simp only [Bool.and_eq_true, decide_eq_true_eq] at hp hq
    obtain ⟨⟨⟨hsum, hstarter⟩, hst⟩, hcount⟩ := hp
    obtain ⟨s', hs', ht⟩ := run_append_ok.mp ht
    obtain rfl : s = s' := Except.ok.inj (hs.symm.trans hs')
    obtain ⟨t', ht', h⟩ := run_cons_ok.mp ht
    cases h
    refine ⟨s, t, hs, ht', hcount, fun h => ?_⟩
    have hsame := (h 0 (by omega)).2 2 hstarter (by decide)
    rw [hsame, hst] at hq
    cases hq
  · obtain ⟨t, ht, hq⟩ := exists_of_check step (sysProbe 2 [1, 1] id 8)
      (openStart 1 ++ [.run (.close 1 1)]) (fun t => decide ((t.men.chan 1).state = .started))
      (by decide +kernel)
    obtain ⟨s, hs, hp⟩ := exists_of_check step (sysProbe 2 [1, 1] id 8) (openStart 1)
      (fun s => decide (s.men.dmacnt.sum = 2) && decide ((s.men.chan 1).starter = some 1) &&
        decide (s.men.files.count 1 = 1)) (by decide +kernel)
    simp only [Bool.and_eq_true, decide_eq_true_eq] at hp hq
    obtain ⟨⟨hsum, hstarter⟩, hcount⟩ := hp
    obtain ⟨s', hs', ht⟩ := run_append_ok.mp ht
    obtain rfl : s = s' := Except.ok.inj (hs.symm.trans hs')
    obtain ⟨t', ht', h⟩ := run_cons_ok.mp ht
    cases h
    exact ⟨s, t, hs, ht', hcount, fun h => (h 1 (by omega)).1 hstarter hq⟩

end Example

end MenableDriver
