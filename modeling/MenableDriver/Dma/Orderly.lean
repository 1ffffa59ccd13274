import MenableDriver.Dma.Locks
import MenableDriver.Dma.Shelving

/-!
# Every call keeps the buffers filed

A board is orderly when its links agree, its buffers are registered once and the buffers of
every active head are filed. A call keeps it that way unless it does to a buffer what its
`listname` does not allow, or takes a head from another channel. Every channel can have its
own trust.
-/

namespace MenableDriver

set_option autoImplicit false

open Transition Shelves

variable {tr : ChanRef → Trust} {m m' : Men} {o : Outcome} {c : ChanRef} {h : HeadRef}

/-- Only the control of the channel changes; the engine may be halted. -/
structure Dmachan.Controls (ch ch' : Dmachan) : Prop where
  list : ch'.list = ch.list
  count : ch'.count = ch.count
  idle : ch.Idle → ch'.Idle
  log : inFlight ch'.log = inFlight ch.log ∨ inFlight ch'.log = []

theorem Dmachan.Controls.refl (ch : Dmachan) : ch.Controls ch := ⟨rfl, rfl, id, .inl rfl⟩

theorem Dmachan.MaybeStopped.controls {ch ch' : Dmachan} (h : ch.MaybeStopped ch') : ch.Controls ch' := by
  cases h with
  | same => exact .refl ch
  | stopped _ _ => exact ⟨rfl, rfl, fun _ => .inr rfl, .inl rfl⟩

structure Controls (m m' : Men) : Prop where
  name : m'.name = m.name
  regs : m'.regs = m.regs
  chan : ∀ c, (m.chan c).Controls (m'.chan c)

theorem Controls.refl (m : Men) : Controls m m := ⟨rfl, rfl, fun _ => .refl _⟩

theorem Controls.setChan {ch : Dmachan} (hc : (m.chan c).Controls ch) : Controls m (m.setChan c ch) where
  name := rfl
  regs := rfl
  chan c' := by
    by_cases he : c' = c
    · subst he
      simpa using hc
    · simpa [he] using .refl _

theorem menDmaCleanHalt_controls (hc : menDmaCleanHalt m c = .ok m') : Controls m m' := by
  obtain ⟨_, _, rfl⟩ := menDmaCleanHalt_ok.mp hc
  exact .setChan ⟨rfl, rfl, fun _ => .inl rfl, .inr rfl⟩

/-- The calls that touch no list and no buffer. -/
def Call.controls : Call → Bool
  | .start .. | .startCancel _ | .startResume .. | .cleanScan _ | .stop _ | .openFile .. | .close ..
  | .waitEnter .. | .waitLeave .. | .irqRearm _ | .irqFinish _ | .irqLost .. | .irqOverflow _
  | .timerExpire _ | .timerRun _ | .workTake _ | .workRun _ | .destroySb _ | .destroyHead _ => true
  | _ => false

theorem call_controls {k : Call} (hk : k.controls = true) (h : call m k = .ok (m', o)) : Controls m m' := by
  cases k with
  | start fgr tsize =>
    cases call_start h
    exact .refl _
  | startCancel w =>
    cases call_startCancel h
    exact .setChan ⟨rfl, rfl, id, .inl rfl⟩
  | startResume w took =>
    rcases call_startResume h with rfl | ⟨_, h₁⟩
    · exact .refl _
    · exact menDmaCleanHalt_controls h₁
  | cleanScan c =>
    cases h
    exact .setChan ⟨rfl, rfl, id, .inl rfl⟩
  | stop index =>
    simp only [call] at h
    split at h <;> cases h
    · exact .refl _
    · rename_i c _
      have hs := menStopDma_chan m c
      obtain ⟨chan, he⟩ := menStopDma_board m c
      rw [he] at hs ⊢
      exact ⟨rfl, rfl, fun c' => (hs c').controls⟩
  | openFile current alloc =>
    obtain ⟨_, _, _, rfl⟩ := call_openFile h
    exact ⟨rfl, rfl, fun _ => .refl _⟩
  | close owner current =>
    obtain ⟨⟨m₁, last⟩, h₁, h⟩ := bind_ok.mp h
    cases h
    obtain ⟨⟨_, _, _, _, rfl⟩, hs⟩ := menableRelease_effect h₁
    exact ⟨rfl, rfl, fun c => (hs c).controls⟩
  | waitEnter c img is32bit wid =>
    simp only [call] at h
    unfold menWaitDmaimgEnter at h
    dsimp only at h
    split_ifs at h <;> cases h
    · exact .refl _
    · exact .refl _
    · exact .setChan ⟨rfl, rfl, id, .inl rfl⟩
  | waitLeave c wid =>
    obtain ⟨⟨m₁, ret⟩, h₁, h⟩ := bind_ok.mp h
    cases h
    unfold menWaitDmaimgLeave at h₁
    dsimp only at h₁
    split at h₁
    · cases h₁
    · cases h₁
      exact .setChan ⟨rfl, rfl, id, .inl rfl⟩
  | irqRearm c =>
    obtain ⟨m₁, h₁, h⟩ := bind_ok.mp h
    cases h
    rcases irqRearm_cases h₁ with rfl | ⟨_, rfl⟩
    · exact .refl _
    · exact .setChan ⟨rfl, rfl, id, .inl rfl⟩
  | irqFinish c =>
    cases h
    exact .setChan ⟨rfl, rfl, fun _ => .inr rfl, .inl rfl⟩
  | irqLost c n | irqOverflow c =>
    cases h
    exact .setChan ⟨rfl, rfl, id, .inl rfl⟩
  | timerExpire c =>
    obtain ⟨m₁, h₁, h⟩ := bind_ok.mp h
    cases h
    obtain ⟨_, _, rfl⟩ := timerExpire_ok.mp h₁
    exact .setChan ⟨rfl, rfl, id, .inl rfl⟩
  | timerRun c =>
    obtain ⟨m₁, h₁, h⟩ := bind_ok.mp h
    cases h
    obtain ⟨_, rfl⟩ := timerRun_ok.mp h₁
    exact .setChan ⟨rfl, rfl, fun _ => .inl rfl, .inr rfl⟩
  | workTake c =>
    obtain ⟨m₁, h₁, h⟩ := bind_ok.mp h
    cases h
    obtain ⟨_, _, rfl⟩ := workTake_ok.mp h₁
    exact .setChan ⟨rfl, rfl, id, .inl rfl⟩
  | workRun c =>
    obtain ⟨m₁, h₁, h⟩ := bind_ok.mp h
    cases h
    obtain ⟨_, ⟨_, rfl⟩ | ⟨_, _, rfl⟩⟩ := workRun_ok.mp h₁
    · exact .setChan ⟨rfl, rfl, id, .inl rfl⟩
    · exact .setChan ⟨rfl, rfl, fun _ => .inl rfl, .inr rfl⟩
  | destroySb b =>
    obtain ⟨m₁, h₁, h⟩ := bind_ok.mp h
    cases h
    obtain ⟨_, rfl⟩ := menDestroySb_ok.mp h₁
    exact ⟨rfl, rfl, fun _ => .refl _⟩
  | destroyHead hd =>
    obtain ⟨m₁, h₁, h⟩ := bind_ok.mp h
    cases h
    obtain ⟨_, rfl⟩ := menFreeBufHead_ok.mp h₁
    exact ⟨rfl, rfl, fun _ => .refl _⟩
  | _ => cases hk

/-- A start of a busy head halts the channel at most. -/
theorem fgStartTail_controls {w : StartWait} {hw : StartHw} {current : Tgid} {ret : Ret}
    (hb : menStartDmaBusy m w.chan w.head = true) (hc : fgStartTail m w hw current = .ok (m', ret)) :
    Controls m m' := by
  rw [← fgStartSetup_busy m w.fgr w.chan w.head] at hb
  have hs : Controls m (fgStartSetup m w.fgr w.chan) := .setChan ⟨rfl, rfl, id, .inl rfl⟩
  rcases fgStartTail_cases hc with ⟨_, h₁⟩ | ⟨e, m₁, _, h₁, h₂⟩
  · rcases menStartDma_cases h₁ with ⟨_, _, he⟩ | ⟨hb', _⟩
    · cases he
    · rw [hb'] at hb
      cases hb
  · rcases menStartDma_cases h₁ with ⟨_, rfl, _⟩ | ⟨hb', _⟩
    · have hh := menDmaCleanHalt_controls h₂
      refine ⟨hh.name.trans hs.name, hh.regs.trans hs.regs, fun c => ?_⟩
      obtain ⟨hl, hcount, hidle, hlog⟩ := hs.chan c
      obtain ⟨hl', hcount', hidle', hlog'⟩ := hh.chan c
      refine ⟨hl'.trans hl, hcount'.trans hcount, fun hi => hidle' (hidle hi), ?_⟩
      rcases hlog' with he | he
      · rw [he]
        exact hlog
      · exact .inr he
    · rw [hb'] at hb
      cases hb

structure OrderlyBy (tr : ChanRef → Trust) (m : Men) : Prop where
  linked : Linked m
  registry : Registry m
  shelves : ∀ c h, (m.chan c).active = some h → Shelved (tr c) m c h

theorem Registry.stock (hr : Registry m) (hh : h ∈ m.heads) : Stock (m.regs h) h where
  nodup := hr.regs_nodup hh
  few := Nat.lt_of_le_of_lt (List.length_filterMap_le _ _) (m.head h).numSb_lt
  dummy := dummy_not_mem_regs

/-- The channel keeps its head, its lists and the names of its buffers. -/
structure Untouched (m m' : Men) (c : ChanRef) (h : HeadRef) : Prop where
  active : (m.chan c).active = some h
  control : (m.chan c).Controls (m'.chan c)
  regs : m'.regs h = m.regs h
  names : ∀ b ∈ m.regs h, m'.name b = m.name b

theorem Untouched.shelved {tr₀ : Trust} (hu : Untouched m m' c h) (hs : Shelved tr₀ m c h) :
    Shelved tr₀ m' c h :=
  hs.congr hu.regs hu.names hu.control.list hu.control.count hu.control.idle hu.control.log

namespace OrderlyBy

theorem live (ho : OrderlyBy tr m) (hact : (m.chan c).active = some h) : h ∈ m.heads :=
  mem_heads.mpr (.inl (ho.linked.live c h hact))

theorem stock (ho : OrderlyBy tr m) (hact : (m.chan c).active = some h) : Stock (m.regs h) h :=
  ho.registry.stock (ho.live hact)

theorem indexed (ho : OrderlyBy tr m) (hact : (m.chan c).active = some h) : Indexed m h :=
  ⟨ho.registry.dummy h (ho.linked.live c h hact), ho.registry.sb⟩

/-- No head is active on two channels. -/
theorem ne_head (hl : Linked m) {c' : ChanRef} {h' : HeadRef} (hact : (m.chan c).active = some h)
    (hact' : (m.chan c').active = some h') (hne : c' ≠ c) : h' ≠ h := by
  rintro rfl
  have hh := hl.live c h' hact
  have hlink := (hl.linked c h' hh).mp hact
  have hlink' := (hl.linked c' h' hh).mp hact'
  exact hne (Option.some.inj (hlink'.symm.trans hlink))

/-- An active head is linked to its channel. -/
theorem ne_unlinked (ho : OrderlyBy tr m) {hd : HeadRef} (hact : (m.chan c).active = some h)
    (hlink : (m.head hd).chan = none) : h ≠ hd := by
  rintro rfl
  have hlinked := (ho.linked.linked c h (ho.linked.live c h hact)).mp hact
  rw [hlink] at hlinked
  cases hlinked

/-- One channel changes, and no other is touched. -/
theorem of_one (ho : OrderlyBy tr m) (hl : Linked m') (hr : Registry m')
    (hself : ∀ h, (m'.chan c).active = some h → Shelved (tr c) m' c h)
    (hothers : ∀ c' h', c' ≠ c → (m'.chan c').active = some h' → Untouched m m' c' h') : OrderlyBy tr m' := by
  refine ⟨hl, hr, fun c' h' hact => ?_⟩
  by_cases hc : c' = c
  · subst hc
    exact hself h' hact
  · have hu := hothers c' h' hc hact
    exact hu.shelved (ho.shelves c' h' hu.active)

theorem of_untouched (ho : OrderlyBy tr m) (hl : Linked m') (hr : Registry m')
    (hu : ∀ c h, (m'.chan c).active = some h → Untouched m m' c h) : OrderlyBy tr m' :=
  ⟨hl, hr, fun c h hact => (hu c h hact).shelved (ho.shelves c h (hu c h hact).active)⟩

theorem of_controls (ho : OrderlyBy tr m) (hl : Linked m') (hr : Registry m') (hs : SameLinks m m')
    (hc : Controls m m') : OrderlyBy tr m' :=
  ho.of_untouched hl hr fun c h hact =>
    ⟨(hs.active c).symm.trans hact, hc.chan c, congrFun hc.regs h, fun b _ => congrFun hc.name b⟩

/-- A function moved buffers of the active head. -/
theorem of_keeps (ho : OrderlyBy tr m) (hl : Linked m') (hr : Registry m')
    (hact : (m'.chan c).active = some h)
    (hh : h ∈ m.heads) (hk : Keeps (tr c) c h m m') (hregs : m'.regs = m.regs)
    (hothers : ∀ c', c' ≠ c → m'.chan c' = m.chan c') : OrderlyBy tr m' := by
  refine ho.of_one (c := c) hl hr (fun h' hact' => ?_) fun c' h' hne hact' => ?_
  · obtain rfl : h = h' := Option.some.inj (hact.symm.trans hact')
    exact hk.shelved
  · have hneq : h' ≠ h := ne_head hl hact hact' hne
    rw [hothers c' hne] at hact'
    refine ⟨hact', hothers c' hne ▸ .refl _, congrFun hregs h', fun b hb => hk.names b ?_⟩
    exact ho.registry.regs_disjoint (ho.live hact') hh hneq.symm hb

theorem of_moveFrame (ho : OrderlyBy tr m) (hl : Linked m') (hr : Registry m')
    (hact : (m.chan c).active = some h)
    (hk : Keeps (tr c) c h m m') (hf : MoveFrame c m m') : OrderlyBy tr m' :=
  ho.of_keeps hl hr (hf.self.quiet.control.active.trans hact) (ho.live hact) hk
    (SameRegs.of_board (.of_onChan hf)).regs hf.other

end OrderlyBy

/-- The channel whose interrupt handler makes the call. -/
def Call.handler : Call → Option ChanRef
  | .irqFrame c _ _ _ | .irqScan c _ | .queueMax c => some c
  | _ => none

/-- What a call has to keep to. A removed buffer lies where its `listname` says, and the engine
does not have it; a mark is put over a buffer only where it is allowed to be, and the list of a
buffer that is queued allows it; no start takes a head over. -/
def CompliesBy (tr : ChanRef → Trust) (m : Men) : Call → Prop
  | .delBuffer headnr index => ∀ h b c, meGetBufHead m headnr = some h → meGetSubBufByHead m h index =
    some b →
      (m.head h).chan = some c → (m.chan c).state = .stopped ∨ m.name (.sb b) ≠ .hot →
        (∀ n₀, At (m.chan c).list (.sb b) n₀.place → Removable (tr c) n₀ (m.name (.sb b))) ∧
          ((tr c).flight → .sb b ∈ (m.chan c).list .hot → inFlight (m.chan c).log = [])
  | .queueCheck headIdx bufIdx => ∀ h b c, queueRequest m headIdx bufIdx = some (h, b) →
      (m.head h).chan = some c → (m.chan c).Idle →
        m.name (.sb b) = .ready ∨ (tr c).marks (m.name (.sb b))
  | .queueAct headIdx bufIdx => ∀ h b c, queueRequest m headIdx bufIdx = some (h, b) →
      (m.head h).chan = some c → ∀ n₀, At (m.chan c).list (.sb b) n₀.place → Queueable (tr c) n₀
  | k => ¬ TakesOver m k

theorem CompliesBy.not_takesOver {k : Call} (hf : CompliesBy tr m k) : ¬ TakesOver m k := by
  cases k <;> first | exact hf | exact id

theorem slot_mem_regs {i : Nat} {b : SbRef} (hb : (m.head h).bufs[i]? = some (some b)) : .sb b ∈ m.regs h :=
  mem_regs.mpr (List.mem_of_getElem? hb)

section Calls
variable (ho : OrderlyBy tr m)
include ho

theorem OrderlyBy.active (hh : h ∈ m.headsList) (hlink : (m.head h).chan = some c) :
    (m.chan c).active = some h :=
  (ho.linked.linked c h hh).mpr hlink

theorem listCall_orderly {k : Call} (hl : Linked m') (hr : Registry m') (hf : CompliesBy tr m k)
    (ha : ∀ c, k.handler = some c → (m.chan c).active ≠ none) (hc : ListCall m m' c k) : OrderlyBy tr m' := by
  have hframe := hc.frame
  cases hc with
  | @act headIdx bufIdx hd b hq hlink hc =>
    obtain ⟨hh, hslot⟩ := queueRequest_some.mp hq
    have hact := ho.active (meGetBufHead_mem hh) hlink
    exact ho.of_moveFrame hl hr hact (menQueueBufferMove_keeps (ho.shelves c hd hact) (ho.stock hact) hact
      (slot_mem_regs hslot) (hf hd b c hq hlink) hc) hframe
  | @unlockAll headnr hd hh hlink hc =>
    have hact := ho.active (meGetBufHead_mem hh) hlink
    exact ho.of_moveFrame hl hr hact (unblockAll_keeps (ho.shelves c hd hact) (ho.stock hact) hact
      (fun b hb => mem_regs.mpr hb) hc) hframe
  | @unlock headnr index hd b hh hlink hb hc =>
    have hact := ho.active (meGetBufHead_mem hh) hlink
    have hmem := slot_mem_regs (meGetSubBufByHead_some.mp hb).2
    refine ho.of_moveFrame hl hr hact (menUnblockBuffer_keeps (ho.shelves c hd hact) (ho.stock hact) hact
      (fun b' he => ?_) hc) hframe
    obtain rfl := Option.some.inj he
    exact hmem
  | @getLast mode headnr hd sb hh hlink hc =>
    have hact := ho.active (meGetBufHead_mem hh) hlink
    exact ho.of_moveFrame hl hr hact (menLastBlocked_keeps (ho.shelves c hd hact) (ho.stock hact) hc) hframe
  | @getNext mode headnr hd sb hh hlink hc =>
    have hact := ho.active (meGetBufHead_mem hh) hlink
    exact ho.of_moveFrame hl hr hact (menNextBlocked_keeps (ho.shelves c hd hact) (ho.stock hact) hc) hframe
  | queueMax hc =>
    obtain ⟨hd, hact⟩ := Option.ne_none_iff_exists'.mp (ha c rfl)
    exact ho.of_moveFrame hl hr hact (menDmaQueueMax_keeps (ho.shelves c hd hact) (ho.stock hact) hact hc)
      hframe

theorem createHead_orderly {subbufs : Int} {mem : Option HeadRef} {r : Except Errno Nat} (hl : Linked m')
    (hr : Registry m') (hc : menCreateBufHead m subbufs mem = .ok (m', r)) : OrderlyBy tr m' := by
  rcases menCreateBufHead_cases hc with rfl | ⟨hd, hdh, hu, _, _, rfl⟩
  · exact ho
  · have hnew : hd ∉ m.heads := by
      rw [← headInUse_iff, hu]
      simp
    refine ho.of_untouched hl hr fun c h hact => ?_
    have hne : h ≠ hd := fun he => hnew (he ▸ ho.live hact)
    refine ⟨hact, .refl _, ?_, fun b hb => ?_⟩
    · simp [Men.regs, hne]
    · obtain ⟨sb, rfl⟩ := exists_sb_of_mem_regs hb
      simp [Men.name]

theorem addBuffer_orderly {r : IoRange} {mem : Option SbRef} {ret : Ret} (hl : Linked m') (hr : Registry m')
    (hc : menCreateUserbuf m r mem = .ok (m', ret)) : OrderlyBy tr m' := by
  rcases menCreateUserbuf_cases hc with rfl | ⟨hd, b, hh, h0, hlt, hfree, hb, hput⟩
  · exact ho
  · have hnew : .sb b ∉ m.allBufs := by
      rw [← sbInUse_iff, hb]
      simp
    have hname : ∀ b', b' ≠ .sb b → (putUserbuf m r hd b).name b' = m.name b' := by
      intro b' hne
      change ((m.modBuf (.sb b) fun _ => _).buf b').listname = _
      rw [Men.modBuf_buf, if_neg hne]
      rfl
    have hkept : ∀ c h, (m.chan c).active = some h → ∀ b' ∈ m.regs h,
        (putUserbuf m r hd b).name b' = m.name b' := by
      intro c h hact b' hb'
      apply hname b'
      rintro rfl
      exact hnew (Registry.mem_allBufs (ho.live hact) hb')
    rcases hput with ⟨hlink, rfl⟩ | ⟨c, hlink, rfl⟩
    · exact ho.of_untouched hl hr fun c h hact =>
        ⟨hact, .refl _, setSlot_regs (ho.ne_unlinked hact hlink), hkept c h hact⟩
    · have hact := ho.active (meGetBufHead_mem hh) hlink
      refine ho.of_one (c := c) hl hr (fun h hact' => ?_) fun c' h' hne hact' => ?_
      · have hactive : ((addToFree (putUserbuf m r hd b) c (.sb b)).chan c).active = (m.chan c).active := by
          simp [addToFree, putUserbuf, Dmachan.incCount, Dmachan.listAddTail]
        obtain rfl : hd = h := Option.some.inj (hact.symm.trans (hactive.symm.trans hact'))
        exact addToFree_shelved (ho.shelves c hd hact) (ho.stock hact) (by omega) hfree
          fun hm => hnew (Registry.mem_allBufs (ho.live hact) hm)
      · have hchan : (addToFree (putUserbuf m r hd b) c (.sb b)).chan c' = m.chan c' := by
          simp [addToFree, putUserbuf, hne]
        rw [hchan] at hact'
        have hneq := OrderlyBy.ne_head ho.linked hact hact' hne
        exact ⟨hact', hchan ▸ .refl _, setSlot_regs hneq, hkept c' h' hact'⟩

theorem delBuffer_orderly {headnr : Nat} {index : Int} {ret : Ret} (hl : Linked m') (hr : Registry m')
    (hf : CompliesBy tr m (.delBuffer headnr index)) (hc : menIoctlDelVirtUserBuffer m headnr index = .ok (m', ret)) :
    OrderlyBy tr m' := by
  rcases menIoctlDelVirtUserBuffer_cases hc with rfl | ⟨hd, m₁, hh, h₁, rfl⟩
  · exact ho
  · rcases menFreeUserbuf_cases h₁ with ⟨_, hne⟩ | ⟨b, _, h0, _, hb, hfree⟩
    · exact absurd rfl hne
    · have hsub := meGetSubBufByHead_some.mpr ⟨h0, hb⟩
      rcases hfree with ⟨hlink, rfl⟩ | ⟨c, m₂, hlink, hst, h₂, rfl⟩
      · exact ho.of_untouched hl hr fun c h hact =>
          ⟨hact, .refl _, setSlot_regs (ho.ne_unlinked hact hlink), fun _ _ => rfl⟩
      · have hact := ho.active (meGetBufHead_mem hh) hlink
        obtain ⟨hrem, hflight⟩ := hf hd b c hh hsub hlink hst
        have hs : Shelved (tr c) (m₂.setSlot hd index.toNat none) c hd :=
          dropFromChannel_shelved (ho.shelves c hd hact) (ho.stock hact) hb hrem hflight h₂
        have hactive : (m₂.chan c).active = (m.chan c).active := by
          rcases dropFromChannel_cases h₂ with ⟨_, rfl⟩ | ⟨_, _, rfl⟩ <;> simp [Dmachan.decCount]
        obtain ⟨ch, rfl⟩ := dropFromChannel_board h₂
        refine ho.of_one (c := c) hl hr (fun h hact' => ?_) fun c' h' hne hact' => ?_
        · obtain rfl : hd = h := Option.some.inj (hact.symm.trans (hactive.symm.trans hact'))
          exact hs.congr rfl (fun _ _ => rfl) rfl rfl id (.inl rfl)
        · have hchan : ((m.setChan c ch).setSlot hd index.toNat none).chan c' = m.chan c' := by simp [hne]
          change (((m.setChan c ch).setSlot hd index.toNat none).chan c').active = some h' at hact'
          rw [hchan] at hact'
          exact ⟨hact', hchan ▸ .refl _, setSlot_regs (OrderlyBy.ne_head ho.linked hact hact' hne),
            fun _ _ => rfl⟩

/-- A released head is no channel's head any more. -/
theorem release_orderly (hl : Linked m') (hr : Registry m') (hregs : m'.regs = m.regs)
    (hname : m'.name = m.name)
    (hc : ∀ c, m'.chan c = m.chan c ∨ m'.chan c = { m.chan c with active := none }) : OrderlyBy tr m' := by
  refine ho.of_untouched hl hr fun c h hact => ?_
  rcases hc c with he | he
  · rw [he] at hact
    exact ⟨hact, he ▸ .refl _, congrFun hregs h, fun b _ => congrFun hname b⟩
  · rw [he] at hact
    cases hact

theorem queueCheck_orderly {headIdx bufIdx : Nat} (hl : Linked m') (hr : Registry m')
    (hf : CompliesBy tr m (.queueCheck headIdx bufIdx)) (hc : menQueueBufferCheck m headIdx bufIdx = .marked m') :
    OrderlyBy tr m' := by
  obtain ⟨hd, b, hq, hlink, rfl⟩ := menQueueBufferCheck_marked hc
  obtain ⟨hh, hslot⟩ := queueRequest_some.mp hq
  have hmem : .sb b ∈ m.regs hd := slot_mem_regs hslot
  have hlive : hd ∈ m.heads := mem_heads.mpr (.inl (meGetBufHead_mem hh))
  have hother : ∀ c h, (m.chan c).active = some h → h ≠ hd →
      Untouched m (m.setListname (.sb b) .ready) c h := by
    refine fun c h hact hne => ⟨hact, .refl _, rfl, fun b' hb' => ?_⟩
    have hneq : b' ≠ .sb b := by
      rintro rfl
      exact ho.registry.regs_disjoint (ho.live hact) hlive hne.symm hb' hmem
    rw [name_setListname, if_neg hneq]
  rcases hlink with hlink | ⟨c, hlink, hidle⟩
  · exact ho.of_untouched hl hr fun c h hact => hother c h hact (ho.ne_unlinked hact hlink)
  · have hact := ho.active (meGetBufHead_mem hh) hlink
    refine ho.of_one (c := c) hl hr (fun h hact' => ?_) fun c' h' hne hact' => ?_
    · obtain rfl : hd = h := Option.some.inj (hact.symm.trans hact')
      exact mark_shelved (ho.shelves c hd hact) hidle (hf hd b c hq hlink hidle)
    · exact hother c' h' hact' (OrderlyBy.ne_head ho.linked hact hact' hne)

theorem irqFrame_orderly {ts len tag : Nat} (hl : Linked m') (hr : Registry m')
    (hf : (m.chan c).active ≠ none) (hc : irqFrame m c ts len tag = .ok m') : OrderlyBy tr m' := by
  obtain ⟨hd, hact⟩ := Option.ne_none_iff_exists'.mp hf
  have hframe := irqFrame_frame hc
  exact ho.of_keeps hl hr (hframe.self.control.active.trans hact) (ho.live hact)
    (irqFrame_keeps (ho.shelves c hd hact) (ho.stock hact) hact (ho.indexed hact) hc)
    (SameRegs.of_board (.of_onChan hframe)).regs hframe.other

theorem irqScan_orderly {newFrames : Nat} {finish : Bool} (hl : Linked m') (hr : Registry m')
    (hf : (m.chan c).active ≠ none) (hc : irqScan m c newFrames = .ok (m', finish)) : OrderlyBy tr m' := by
  obtain ⟨hd, hact⟩ := Option.ne_none_iff_exists'.mp hf
  have hmarked : Controls m (scanMarked m c) := .setChan ⟨rfl, rfl, id, .inl rfl⟩
  have hsame : SameLinks m (scanMarked m c) := .setChan rfl
  have hsregs : SameRegs m (scanMarked m c) := .setChan ..
  have ho₁ : OrderlyBy tr (scanMarked m c) :=
    ho.of_controls (ho.linked.congr hsame) (ho.registry.congr hsregs) hsame hmarked
  have hact₁ : ((scanMarked m c).chan c).active = some hd := (hsame.active c).trans hact
  have queued : menDmaQueueMax (scanMarked m c) c = .ok m' → OrderlyBy tr m' := fun h₁ =>
    ho₁.of_moveFrame hl hr hact₁ (menDmaQueueMax_keeps (ho₁.shelves c hd hact₁) (ho₁.stock hact₁) hact₁ h₁)
      (menDmaQueueMax_frame h₁)
  rcases irqScan_cases hc with ⟨_, _, rfl | ⟨_, h₁⟩⟩ | ⟨_, _, rfl⟩
  · exact ho₁
  · exact queued h₁
  · exact ho₁

theorem fgStartTail_orderly {w : StartWait} {hw : StartHw} {current : Tgid} {ret : Ret} (hl : Linked m')
    (hr : Registry m') (hh : w.head ∈ m.headsList) (hc : fgStartTail m w hw current = .ok (m', ret)) :
    OrderlyBy tr m' := by
  rcases fgStartTail_links hc with ⟨hb, hs⟩ | ⟨hb, ht⟩
  · exact ho.of_controls hl hr hs (fgStartTail_controls hb hc)
  · have hlive : w.head ∈ m.heads := mem_heads.mpr (.inl hh)
    have hact : (m'.chan w.chan).active = some w.head := by rw [ht.active, if_pos rfl]
    exact ho.of_keeps hl hr hact hlive (fgStartTail_keeps (ho.registry.stock hlive) hb hc)
      (fgStartTail_sameRegs hc).regs fun c' hne => fgStartTail_other hc hne

theorem start_orderly {k : Call} {w : StartWait} {current : Tgid} (hl : Linked m') (hr : Registry m')
    (hk : k.Starts w current) (h : call m k = .ok (m', o)) : OrderlyBy tr m' := by
  rcases hk.runs h with ⟨rfl, _⟩ | ⟨hw, ret, hhead, h₁, _⟩
  · exact ho
  · exact fgStartTail_orderly ho hl hr (meGetBufHead_mem hhead) h₁

end Calls

theorem menCleanupMem_name {hs : List HeadRef} (hc : menCleanupMem m hs = .ok m') :
    m'.regs = m.regs ∧ m'.name = m.name := by
  refine menCleanupMem_induct (P := fun _ m' => m'.regs = m.regs ∧ m'.name = m.name) (fun h₁ hsame => ?_)
    ⟨rfl, rfl⟩ hc
  rcases menReleaseBufHead_cases h₁ with ⟨_, hne⟩ | ⟨_, ⟨_, rfl⟩ | ⟨c, _, _, rfl⟩⟩
  · exact absurd rfl hne
  · exact hsame
  · exact hsame

theorem call_orderly {k : Call} (ho : OrderlyBy tr m) (hf : CompliesBy tr m k)
    (ha : ∀ c, k.handler = some c → (m.chan c).active ≠ none) (h : call m k = .ok (m', o)) :
      OrderlyBy tr m' := by
  have hl : Linked m' := (call_linked ho.linked h).1 hf.not_takesOver
  have hr : Registry m' := call_registry ho.registry h
  by_cases hk : k.controls = true
  · have hs : SameLinks m m' := call_sameLinks (by cases k <;> first | rfl | cases hk) h
    exact ho.of_controls hl hr hs (call_controls hk h)
  · cases k with
    | createHead subbufs mem =>
      obtain ⟨⟨m₁, r⟩, h₁, h⟩ := bind_ok.mp h
      cases h
      exact createHead_orderly ho hl hr h₁
    | addBuffer r mem =>
      obtain ⟨⟨m₁, ret⟩, h₁, h⟩ := bind_ok.mp h
      cases h
      exact addBuffer_orderly ho hl hr h₁
    | delBuffer headnr index =>
      obtain ⟨⟨m₁, ret⟩, h₁, h⟩ := bind_ok.mp h
      cases h
      exact delBuffer_orderly ho hl hr hf h₁
    | freeHead headnr =>
      obtain ⟨ret, h₁⟩ := call_freeHead h
      rcases menIoctlFreeVirtBuffer_cases h₁ with rfl | ⟨hd, m₁, hh, h₂, rfl⟩
      · exact ho
      · rcases menReleaseBufHead_cases h₂ with ⟨_, hne⟩ | ⟨_, ⟨_, rfl⟩ | ⟨c, _, _, rfl⟩⟩
        · exact absurd rfl hne
        · exact release_orderly ho hl hr rfl rfl fun _ => .inl rfl
        · refine release_orderly ho hl hr rfl rfl fun c' => ?_
          by_cases hc : c' = c
          · subst hc
            exact .inr (by simp)
          · exact .inl (by simp [hc])
    | cleanupMem =>
      obtain ⟨m₁, h₁, h⟩ := bind_ok.mp h
      cases h
      obtain ⟨hregs, hname⟩ := menCleanupMem_name h₁
      exact release_orderly ho hl hr hregs hname fun c => (menCleanupMem_chan h₁ c).imp_right And.right
    | startTail w hw current => exact start_orderly ho hl hr (.tail hw) h
    | startRest w hw current => exact start_orderly ho hl hr (.rest hw) h
    | queueCheck headIdx bufIdx =>
      simp only [call] at h
      split at h
      · cases h
        exact ho
      · rename_i m₁ h₁
        cases h
        exact queueCheck_orderly ho hl hr hf h₁
      · cases h
        exact ho
    | irqFrame c ts len tag =>
      obtain ⟨m₁, h₁, h⟩ := bind_ok.mp h
      cases h
      exact irqFrame_orderly ho hl hr (ha c rfl) h₁
    | irqScan c newFrames =>
      obtain ⟨⟨m₁, finish⟩, h₁, h⟩ := bind_ok.mp h
      cases h
      exact irqScan_orderly ho hl hr (ha c rfl) h₁
    | queueAct | unlock | getFrame | queueMax =>
      rcases call_lists rfl h with rfl | ⟨c, hc⟩
      · exact ho
      · exact listCall_orderly ho hl hr hf ha hc
    | _ => exact absurd rfl hk

theorem orderly_probe (activeFpgas : Nat) (dmacnt : List Nat) (fpga : ChanRef → Nat) (fifo : UInt32) :
    OrderlyBy tr (menProbe activeFpgas dmacnt fpga fifo) :=
  ⟨⟨⟨by simp [menProbe], by simp [menProbe]⟩, List.nodup_nil⟩, registry_probe .., by simp [menProbe]⟩

section Driver
variable {s t : Sys}

/-- A handler runs only while its channel has a head. -/
structure TidyBy (tr : ChanRef → Trust) (s : Sys) : Prop extends Locked s where
  orderly : OrderlyBy tr s.men
  served : ∀ c, s.irq c ≠ none → (s.men.chan c).active ≠ none

theorem handler_irq {k : Call} (hr : s.ready k = true) (hk : k.handler = some c) : s.irq c ≠ none := by
  intro hirq
  cases k with
  | irqFrame c' ts len tag | irqScan c' newFrames =>
    cases hk
    simp [Sys.ready, hirq] at hr
  | queueMax => cases hr
  | _ => cases hk

/-- The active head of a channel goes with the request that frees it. -/
theorem freeHead_active {headnr : Nat} (hl : Linked m) (h : call m (.freeHead headnr) = .ok (m', o))
    {hd : HeadRef} (hact : (m.chan c).active = some hd) (hnone : (m'.chan c).active = none) :
    meGetBufHead m headnr = some hd := by
  obtain ⟨ret, h₁⟩ := call_freeHead h
  rcases menIoctlFreeVirtBuffer_cases h₁ with rfl | ⟨hd', m₁, hh, h₂, rfl⟩
  · rw [hact] at hnone
    cases hnone
  · rcases menReleaseBufHead_cases h₂ with ⟨_, hne⟩ | ⟨_, ⟨_, rfl⟩ | ⟨c', hlink', _, rfl⟩⟩
    · exact absurd rfl hne
    · rw [hact] at hnone
      cases hnone
    · have hcc : c = c' := by
        by_contra hne
        simp [hne, hact] at hnone
      subst hcc
      obtain rfl : hd = hd' := Option.some.inj
        (hact.symm.trans ((hl.linked c hd' (meGetBufHead_mem hh)).mpr hlink'))
      exact hh

/-- A head is not released under a handler of its channel. -/
theorem release_idle {k : Call} {m : Men} (hl : Linked s.men) (hr : s.ready k = true)
    (hk : (∃ n, k = .freeHead n) ∨ k = .cleanupMem) (hcall : call s.men k = .ok (m, o))
    (hact : (s.men.chan c).active ≠ none) (hnone : (m.chan c).active = none) : s.irq c = none := by
  obtain ⟨hd, hact⟩ := Option.ne_none_iff_exists'.mp hact
  have hlink := (hl.linked c hd (hl.live c hd hact)).mp hact
  have idle : s.linkFree hd = true → s.irq c = none := by simp [Sys.linkFree, hlink, irqIdle_iff]
  rcases hk with ⟨headnr, rfl⟩ | rfl
  · have hh := freeHead_active hl hcall hact hnone
    simp only [Sys.ready, Bool.and_eq_true] at hr
    exact idle (by simpa [Sys.headLinkFree, hh] using hr.2)
  · simp only [Sys.ready, Bool.and_eq_true] at hr
    exact idle (List.all_eq_true.mp hr.2 hd (hl.live c hd hact))

/-- A channel loses its head only to a release, which leaves a channel that was started alone. -/
theorem chanStep_active_some {k : Call} {ch ch' : Dmachan} (h : ChanStep c k o ch ch') :
    ch'.active = ch.active ∨ ch'.active ≠ none ∨
      ((∃ n, k = .freeHead n) ∨ k = .cleanupMem) ∧ ch.state ≠ .started := by
  cases h with
  | still _ hq => exact .inl hq.control.active
  | frame hq => exact .inl hq.control.active
  | startDone _ _ h => exact .inr (.inl (by simp [h.active]))
  | startFailed _ _ h =>
    rcases h.active with he | he
    · exact .inl he
    · exact .inr (.inl (by simp [he]))
  | stopped h | closed h => cases h <;> exact .inl rfl
  | irqScanned _ h => exact .inl h.quiet.control.active
  | released hk hst => exact .inr (.inr ⟨hk, hst⟩)
  | _ => exact .inl rfl

theorem step_tidy {e : Event} (ht : TidyBy tr s) (hf : ∀ k, e = .run k → CompliesBy tr s.men k)
    (h : step s e = .ok t) : TidyBy tr t := by
  have hlock := step_locked ht.toLocked h
  cases e with
  | irqEnter c newFrames =>
    obtain ⟨_, hact, rfl⟩ := step_irqEnter h
    refine ⟨hlock, ht.orderly, fun c' hirq => ?_⟩
    by_cases hc : c' = c
    · subst hc
      exact hact
    · exact ht.served c' (by simpa [hc] using hirq)
  | run k =>
    obtain ⟨m, o, hcall, hr, rfl⟩ := step_run h
    have hha : ∀ c, k.handler = some c → (s.men.chan c).active ≠ none := fun c hk =>
      ht.served c (handler_irq hr hk)
    refine ⟨hlock, call_orderly ht.orderly (hf k rfl) hha hcall, fun c hirq hnone => ?_⟩
    have hold : s.irq c ≠ none := fun hi => hirq (nextIrq_none hr hi)
    have hact := ht.served c hold
    rcases chanStep_active_some (call_chan hcall c) with he | hne | ⟨hk, _⟩
    · exact hact (he.symm.trans hnone)
    · exact hne hnone
    · exact hold (release_idle ht.orderly.linked hr hk hcall hact hnone)

theorem tidy_probe (activeFpgas : Nat) (dmacnt : List Nat) (fpga : ChanRef → Nat) (fifo : UInt32) :
    TidyBy tr (sysProbe activeFpgas dmacnt fpga fifo) where
  chan := by simp [sysProbe]
  rest := by simp [sysProbe]
  orderly := orderly_probe activeFpgas dmacnt fpga fifo
  served := by simp [sysProbe]

end Driver

/-! ## One trust for all channels -/

abbrev Orderly (tr : Trust) (m : Men) : Prop := OrderlyBy (fun _ => tr) m

abbrev Complies (tr : Trust) (m : Men) (k : Call) : Prop := CompliesBy (fun _ => tr) m k

abbrev Tidy (tr : Trust) (s : Sys) : Prop := TidyBy (fun _ => tr) s

end MenableDriver
