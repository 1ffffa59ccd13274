import MenableDriver.Dma.Acquisition
import MenableDriver.Dma.BufferLists

/-!
# Frames reach the application in order

In handshake mode a completed frame waits in the grabbed list until the application asks for
it. The frame numbers that were returned, with those of the grabbed list behind them, are one
increasing line: frames come in at its end, and a request or an unlock only takes some out.
-/

namespace MenableDriver

set_option autoImplicit false

open Transition Shelves

/-- What runs on a channel in handshake mode, the interrupt with what it notes in the buffer. -/
inductive FrameOp where
  | frame (ts len tag : Nat)
  | queueMax
  | nextBlocked
  | lastBlocked
  | unblock (slot : Nat)
deriving DecidableEq, Repr

/-- The board and the frame numbers of the buffers that were returned. -/
structure FrameTrace where
  men : Men
  frames : List Nat := []

def FrameTrace.handOut (t : FrameTrace) (m : Men) (sb : Option BufRef) : FrameTrace :=
  { men := m, frames := t.frames ++ (sb.map fun b => (m.buf b).frameNumber).toList }

def frameStep (c : ChanRef) (t : FrameTrace) : FrameOp → Res FrameTrace
  | .frame ts len tag => do .ok { t with men := ← irqFrame t.men c ts len tag }
  | .queueMax => do .ok { t with men := ← menDmaQueueMax t.men c }
  | .nextBlocked => do
    let (m, sb) ← menNextBlocked t.men c
    .ok (t.handOut m sb)
  | .lastBlocked => do
    let (m, sb) ← menLastBlocked t.men c
    .ok (t.handOut m sb)
  | .unblock slot => do
    .ok { t with men := ← menUnblockBuffer t.men c ((activeSlot t.men c slot).map .sb) }

def Men.frame (m : Men) (b : BufRef) : Nat := (m.buf b).frameNumber

@[simp] theorem frame_setChan (m : Men) (c : ChanRef) (ch : Dmachan) : (m.setChan c ch).frame = m.frame := rfl

theorem frame_modBuf {m : Men} {b : BufRef} {f : Dmabuf → Dmabuf}
    (hf : (f (m.buf b)).frameNumber = (m.buf b).frameNumber) : (m.modBuf b f).frame = m.frame := by
  funext b'
  simp only [Men.frame, Men.modBuf_buf]
  split_ifs with h
  · rw [hf, h]
  · rfl

@[simp] theorem frame_setListname (m : Men) (b : BufRef) (n : ListName) : (m.setListname b n).frame =
    m.frame :=
  frame_modBuf rfl

theorem frame_modBuf_ne {m : Men} {b b' : BufRef} {f : Dmabuf → Dmabuf} (hb : b' ≠ b) :
    (m.modBuf b f).frame b' = m.frame b' := by
  simp [Men.frame, hb]

/-- The frames that wait in the grabbed list. -/
def waiting (m : Men) (c : ChanRef) : List Nat := ((m.chan c).list .grabbed).map m.frame

/-- Buffers only leave the grabbed list, and those that stay keep their frames. -/
structure Thins (c : ChanRef) (m m' : Men) : Prop where
  list : ((m'.chan c).list .grabbed).Sublist ((m.chan c).list .grabbed)
  frames : ∀ b ∈ (m'.chan c).list .grabbed, m'.frame b = m.frame b
  latest : (m'.chan c).latestFrameNumber = (m.chan c).latestFrameNumber

variable {tr : Trust} {m m' m'' : Men} {c : ChanRef} {h : HeadRef} {b : BufRef}

namespace Thins

theorem refl (c : ChanRef) (m : Men) : Thins c m m := ⟨.refl _, fun _ _ => rfl, rfl⟩

theorem trans (ht : Thins c m m') (ht' : Thins c m' m'') : Thins c m m'' where
  list := ht'.list.trans ht.list
  frames b hb := (ht'.frames b hb).trans (ht.frames b (ht'.list.subset hb))
  latest := ht'.latest.trans ht.latest

theorem waiting (ht : Thins c m m') : (waiting m' c).Sublist (waiting m c) := by
  have heq : MenableDriver.waiting m' c = ((m'.chan c).list .grabbed).map m.frame :=
    List.map_congr_left fun b hb => ht.frames b hb
  rw [heq]
  exact ht.list.map _

end Thins

theorem queueReady_thins (hs : Shelved tr m c h) (hst : Stock (m.regs h) h) (hc : queueReady m c = .ok m') :
    Thins c m m' := by
  obtain ⟨b, hfirst, hc⟩ := bind_ok.mp hc
  obtain ⟨ch, hch, hc⟩ := bind_ok.mp hc
  obtain ⟨_, rfl⟩ := Dmachan.listMoveTail_ok.mp hch
  obtain ⟨-, hat⟩ := hs.first hfirst (hs.first_ne_dummy hfirst (by simp) hst)
  have hnot : b ∉ (m.chan c).list .grabbed := fun hm => by
    cases (hat.mem_iff.mp hm : some ListName.ready = some .grabbed)
  have hlist : moveLast (m.chan c).list b .hot .grabbed = (m.chan c).list .grabbed := by
    rw [moveLast, putLast_ne (by simp), hat.takeOff_ne (by simp [place_ready])]
  cases hc
  refine ⟨?_, fun b' hb' => ?_, ?_⟩
  · simp [queueSb, Dmachan.record, Dmachan.incCount, Dmachan.decCount, hlist]
  · rw [frame_modBuf_ne]
    · rfl
    · rintro rfl
      simp [queueSb, Dmachan.record, Dmachan.incCount, Dmachan.decCount, hlist] at hb'
      exact hnot hb'
  · simp [queueSb, Dmachan.record, Dmachan.incCount, Dmachan.decCount]

theorem queueLoop_thins {k : Nat} (hs : Shelved tr m c h) (hst : Stock (m.regs h) h)
    (hc : queueLoop m c k = .ok m') : Thins c m m' := by
  induction k generalizing m with
  | zero =>
    cases hc
    exact .refl _ _
  | succ k ih =>
    obtain ⟨m₁, h₁, hc⟩ := bind_ok.mp hc
    have hk := queueReady_keeps hs hst h₁
    exact (queueReady_thins hs hst h₁).trans (ih hk.shelved (hk.stock hst) hc)

theorem menDmaQueueMax_thins (hs : Shelved tr m c h) (hst : Stock (m.regs h) h)
    (hc : menDmaQueueMax m c = .ok m') : Thins c m m' := by
  unfold menDmaQueueMax at hc
  dsimp only at hc
  split_ifs at hc with htodo hempty hzero hbound
  · split at hc
    · cases hc
      refine ⟨?_, fun _ _ => rfl, ?_⟩
      · simp [queueDummy, queueSb, Dmachan.record, Dmachan.incCount, Dmachan.listAdd, putFirst_ne]
      · simp [queueDummy, queueSb, Dmachan.record, Dmachan.incCount, Dmachan.listAdd]
    · cases hc
      exact .refl _ _
  · cases hc
    exact .refl _ _
  · have hs₁ : Shelved tr (m.setChan c ((m.chan c).record
        (.bound (numFreeInDmaFifo m c) (numBufsToQueue m c)))) c h :=
      hs.congr rfl (fun _ _ => rfl) (by simp [Dmachan.record]) (by simp [Dmachan.record])
        (by simp [Dmachan.record, Dmachan.Idle]) (.inl (by simp [Dmachan.record, inFlight]))
    have ht : Thins c m (m.setChan c ((m.chan c).record
        (.bound (numFreeInDmaFifo m c) (numBufsToQueue m c)))) :=
      ⟨by simp [Dmachan.record], fun _ _ => rfl, by simp [Dmachan.record]⟩
    exact ht.trans (queueLoop_thins hs₁ hst hc)
  · cases hc
    exact .refl _ _

theorem queueIfLow_thins (hs : Shelved tr m c h) (hst : Stock (m.regs h) h) (hc : queueIfLow m c = .ok m') :
    Thins c m m' := by
  unfold queueIfLow at hc
  split_ifs at hc
  · exact menDmaQueueMax_thins hs hst hc
  · cases hc
    exact .refl _ _

theorem menUnblockBuffer_thins (hs : Shelved tr m c h) (hst : Stock (m.regs h) h) {sb : Option BufRef}
    (hb : ∀ b, sb = some b → b ∈ m.regs h) (hc : menUnblockBuffer m c sb = .ok m') : Thins c m m' := by
  cases sb with
  | none =>
    cases hc
    exact .refl _ _
  | some b =>
    have hb := hb b rfl
    unfold menUnblockBuffer at hc
    dsimp only at hc
    split at hc
    · cases hc
      exact .refl _ _
    · cases hc
      exact .refl _ _
    · cases hc
      exact .refl _ _
    · rename_i hname
      obtain ⟨ch, hch, hc⟩ := bind_ok.mp hc
      obtain ⟨_, rfl⟩ := Dmachan.listMoveTail_ok.mp hch
      obtain ⟨_, hk⟩ := unblockGrabbed_keeps hs hst hb hname
      refine Thins.trans ⟨?_, fun _ _ => ?_, ?_⟩ (queueIfLow_thins hk.shelved (hk.stock hst) hc)
      · simpa [Dmachan.incCount, Dmachan.decCount, moveLast, putLast_ne, takeOff] using List.erase_sublist
      · rw [frame_setChan, frame_setListname]
      · simp [Dmachan.incCount, Dmachan.decCount]
    · rename_i hname
      have hk := unblockLocked_keeps hs hst hb hname
      refine Thins.trans ⟨?_, fun _ _ => ?_, ?_⟩ (queueIfLow_thins hk.shelved (hk.stock hst) hc)
      · simp [Dmachan.incCount, Dmachan.decCount, Dmachan.listAddTail, putLast_ne]
      · rw [frame_setChan, frame_setListname]
      · simp [Dmachan.incCount, Dmachan.decCount, Dmachan.listAddTail]

/-- A frame comes in: it is the last one of the grabbed list, or the dummy took it. -/
theorem irqFrame_waiting {ts len tag : Nat} (hs : Shelved tr m c h)
    (hact : (m.chan c).active = some h) (hi : Indexed m h) (hmode : (m.chan c).mode = DMA_HANDSHAKEMODE)
    (hc : irqFrame m c ts len tag = .ok m') :
    Thins c m m' ∨ (m'.chan c).latestFrameNumber = (m.chan c).latestFrameNumber + 1 ∧
      (waiting m' c).Sublist (waiting m c ++ [(m.chan c).latestFrameNumber + 1]) := by
  obtain ⟨⟨m₁, sb⟩, h₁, hc⟩ := bind_ok.mp hc
  unfold menMoveHot at h₁
  dsimp only at h₁
  split_ifs at h₁ with hnone hhot
  · rw [hact] at hnone
    cases hnone
  · obtain ⟨b, hfirst, h₁⟩ := bind_ok.mp h₁
    obtain ⟨m₂, h₂, h₁⟩ := bind_ok.mp h₁
    cases h₁
    unfold moveHotTake at h₂
    dsimp only at h₂
    split_ifs at h₂ with hdummy
    · obtain ⟨ch, hch, h₂⟩ := bind_ok.mp h₂
      obtain ⟨_, rfl⟩ := Dmachan.listDel_ok.mp hch
      cases h₂
      dsimp only at hc
      rw [if_pos (by simpa using hdummy)] at hc
      cases hc
      refine .inr ⟨by simp [Dmachan.record, Dmachan.decCount], ?_⟩
      have hlist : ((m.chan c).list .grabbed).erase b = takeOff (m.chan c).list b .grabbed := rfl
      refine List.Sublist.trans ?_ (List.sublist_append_left _ _)
      unfold waiting
      rw [frame_modBuf rfl]
      simpa [Dmachan.record, Dmachan.decCount, ← hlist] using List.erase_sublist.map _
    · obtain ⟨ch, hch, h₂⟩ := bind_ok.mp h₂
      obtain ⟨_, rfl⟩ := Dmachan.listMoveTail_ok.mp hch
      cases h₂
      obtain ⟨-, hat⟩ := hs.first hfirst fun he => hdummy (he ▸ hi.dummy)
      have htarget : menMoveHotTarget (m.chan c).mode = .grabbed := by rw [menMoveHotTarget, if_pos hmode]
      have hlist : moveLast (m.chan c).list b .grabbed .grabbed = (m.chan c).list .grabbed ++ [b] := by
        rw [moveLast, putLast_same, hat.takeOff_ne (by simp [place_hot])]
      have hnot : b ∉ (m.chan c).list .grabbed := fun hm => by
        cases (hat.mem_iff.mp hm : some ListName.hot = some .grabbed)
      dsimp only at hc
      rw [if_neg (by simpa [Men.setListname] using hdummy)] at hc
      cases hc
      refine .inr ⟨by simp [Dmachan.record, Dmachan.decCount, Dmachan.incCount, Men.setListname], ?_⟩
      unfold waiting
      simp only [Dmachan.record, Dmachan.decCount, Dmachan.incCount, Men.modBuf_chan, Men.setListname,
        Men.setChan_chan, if_true, htarget, hlist, List.map_append, List.map_cons, List.map_nil]
      refine List.Sublist.append ?_ ?_
      · rw [List.map_congr_left fun b' hb' => ?_]
        have hne : b' ≠ b := fun he => hnot (he ▸ hb')
        simp [Men.frame, hne]
      · simp [Men.frame]
  · cases h₁
    cases hc
    exact .inl ⟨by simp, fun _ _ => rfl, by simp⟩

/-- The first grabbed buffer is taken: its frame is the first of the line. -/
theorem lockFirstGrabbed_spec {newest : BufRef} {rest : List BufRef}
    (hl : (m.chan c).list .grabbed = newest :: rest) : ∃ m₁, lockFirstGrabbed m c = .ok (m₁, newest) ∧
      (m₁.chan c).list .grabbed = rest ∧ m₁.frame = m.frame ∧
      (m₁.chan c).latestFrameNumber = (m.chan c).latestFrameNumber ∧
      (newest ∉ (m.chan c).list .ready → (m₁.chan c).list .ready = (m.chan c).list .ready) := by
  have hdel : (m.chan c).listDel newest = .ok { m.chan c with list := takeOff (m.chan c).list newest } :=
    Dmachan.listDel_ok.mpr ⟨⟨.grabbed, by simp [hl]⟩, rfl⟩
  refine ⟨(m.setChan c { m.chan c with list := takeOff (m.chan c).list newest }).setListname newest .noList,
    ?_, ?_, frame_setListname _ _ _, ?_, fun hr => ?_⟩
  · simp only [lockFirstGrabbed, Dmachan.listFirst, hl, hdel, bind, Except.bind]
  · simp [Men.setListname, takeOff, hl]
  · simp [Men.setListname]
  · simp [Men.setListname, takeOff, List.erase_of_not_mem hr]

theorem menNextBlocked_spec {sb : Option BufRef} (hc : menNextBlocked m c = .ok (m', sb)) :
    (m'.chan c).latestFrameNumber = (m.chan c).latestFrameNumber ∧
      (sb.map m'.frame).toList ++ waiting m' c = waiting m c := by
  unfold menNextBlocked at hc
  split_ifs at hc
  · cases hc
    exact ⟨rfl, rfl⟩
  · obtain ⟨⟨m₁, b⟩, h₁, hc⟩ := bind_ok.mp hc
    cases hc
    obtain ⟨rest, hl⟩ : ∃ rest, (m.chan c).list .grabbed = b :: rest := by
      obtain ⟨b', hfirst, h₁⟩ := bind_ok.mp h₁
      obtain ⟨ch, -, h₁⟩ := bind_ok.mp h₁
      cases h₁
      exact Dmachan.listFirst_ok.mp hfirst
    obtain ⟨m₂, h₂, hrest, hframe, hlatest, -⟩ := lockFirstGrabbed_spec hl
    rw [h₁] at h₂
    obtain ⟨rfl, -⟩ := Prod.mk.inj (Except.ok.inj h₂)
    refine ⟨by simpa [Dmachan.decCount, Dmachan.incCount] using hlatest, ?_⟩
    simp [waiting, Dmachan.decCount, Dmachan.incCount, hrest, hframe, hl]

/-- The loop of `men_last_blocked` puts the older buffers behind the ready ones, as they were. -/
theorem releaseGrabbed_spec {older rest : List BufRef} (hs : Shelved tr m c h) (hst : Stock (m.regs h) h)
    (hl : (m.chan c).list .grabbed = older ++ rest) : ∃ m', releaseGrabbed m c older.length = .ok m' ∧
      Keeps tr c h m m' ∧ (m'.chan c).list .grabbed = rest ∧
      (m'.chan c).list .ready = (m.chan c).list .ready ++ older ∧ m'.frame = m.frame ∧
      (m'.chan c).latestFrameNumber = (m.chan c).latestFrameNumber := by
  induction older generalizing m with
  | nil => exact ⟨m, rfl, .refl hs, hl, by simp, rfl, rfl⟩
  | cons b older ih =>
    have hfirst : (m.chan c).listFirst .grabbed = .ok b := Dmachan.listFirst_ok.mpr ⟨_, hl⟩
    obtain ⟨-, hat⟩ := hs.first hfirst (hs.first_ne_dummy hfirst (by simp) hst)
    have hmove : (m.chan c).listMoveTail b .ready = .ok { m.chan c with
        list := moveLast (m.chan c).list b .ready } :=
      Dmachan.listMoveTail_ok.mpr ⟨⟨.grabbed, by simp [hl]⟩, rfl⟩
    have hone : ∀ k, releaseGrabbed m c (k + 1) = releaseGrabbed ((m.setChan c ((Dmachan.incCount
        { m.chan c with list := moveLast (m.chan c).list b .ready } .ready).decCount .grabbed)).setListname b
          .ready) c k := by
      intro k
      rw [releaseGrabbed, hfirst]
      simp only [bind, Except.bind, hmove]
    have hk := releaseGrabbed_keeps hs hst ((hone 0).trans rfl)
    have hgrabbed : moveLast (m.chan c).list b .ready .grabbed = older ++ rest := by
      rw [moveLast, putLast_ne (by simp), takeOff, hl, List.cons_append, List.erase_cons_head]
    have hready : moveLast (m.chan c).list b .ready .ready = (m.chan c).list .ready ++ [b] := by
      rw [moveLast, putLast_same, hat.takeOff_ne (by simp [place_grabbed])]
    obtain ⟨m', hm', hk', hl', hr', hf', hlatest⟩ := ih hk.shelved (hk.stock hst)
      (by simpa [Men.setListname, Dmachan.incCount, Dmachan.decCount] using hgrabbed)
    refine ⟨m', (hone older.length).trans hm', hk.trans hk', hl', ?_, ?_, ?_⟩
    · rw [hr']
      simp [Men.setListname, Dmachan.incCount, Dmachan.decCount, hready]
    · rw [hf', frame_setListname, frame_setChan]
    · rw [hlatest]
      simp [Men.setListname, Dmachan.incCount, Dmachan.decCount]

/-- `men_last_blocked` returns the last grabbed buffer and makes the others ready. -/
theorem menLastBlocked_spec (hs : Shelved tr m c h) (hcounts : tr.counts .grabbed) (hst : Stock (m.regs h) h)
    {older : List BufRef} {newest : BufRef} (hl : (m.chan c).list .grabbed = older ++ [newest]) :
    ∃ m', menLastBlocked m c = .ok (m', some newest) ∧ (m'.chan c).list .grabbed = [] ∧
      (m'.chan c).list .ready = (m.chan c).list .ready ++ older ∧ m'.frame = m.frame ∧
      (m'.chan c).latestFrameNumber = (m.chan c).latestFrameNumber := by
  have hcount : (m.chan c).count .grabbed = older.length + 1 := by
    rw [hs.counted.count .grabbed hcounts, held_list (by simp), hl, List.length_append, List.length_singleton]
  obtain ⟨m₁, h₁, hk, hl₁, hr₁, hf₁, hlatest₁⟩ := releaseGrabbed_spec hs hst hl
  obtain ⟨m₂, h₂, hl₂, hf₂, hlatest₂, hr₂⟩ := lockFirstGrabbed_spec hl₁
  have hfirst : (m₁.chan c).listFirst .grabbed = .ok newest := Dmachan.listFirst_ok.mpr ⟨_, hl₁⟩
  obtain ⟨-, hat⟩ := hk.shelved.first hfirst (hk.shelved.first_ne_dummy hfirst (by simp) (hk.stock hst))
  have hnot : newest ∉ (m₁.chan c).list .ready := fun hm => by
    cases (hat.mem_iff.mp hm : some ListName.grabbed = some .ready)
  refine ⟨m₂.setChan c (Dmachan.incCount { m₂.chan c with
    count := Function.update (m₂.chan c).count .grabbed 0 } .noList), ?_, ?_, ?_, ?_, ?_⟩
  · simp only [menLastBlocked, hcount, Nat.add_one_ne_zero, if_false, Nat.add_sub_cancel, h₁, h₂, bind,
      Except.bind]
  · simpa [Dmachan.incCount] using hl₂
  · simpa [Dmachan.incCount, hr₁] using hr₂ hnot
  · rw [frame_setChan, hf₂, hf₁]
  · simpa [Dmachan.incCount, hlatest₁] using hlatest₂

theorem menLastBlocked_empty (hs : Shelved tr m c h) (hcounts : tr.counts .grabbed)
    (hl : (m.chan c).list .grabbed = []) : menLastBlocked m c = .ok (m, none) := by
  have hcount : (m.chan c).count .grabbed = 0 := by
    rw [hs.counted.count .grabbed hcounts, held_list (by simp), hl]
    rfl
  rw [menLastBlocked, if_pos hcount]

/-! ## The run -/

/-- A channel in handshake mode with its head. -/
structure Handshaking (c : ChanRef) (h : HeadRef) (m : Men) : Prop where
  shelved : Shelved allCounts m c h
  stock : Stock (m.regs h) h
  active : (m.chan c).active = some h
  indexed : Indexed m h
  mode : (m.chan c).mode = DMA_HANDSHAKEMODE

theorem Handshaking.keeps (hm : Handshaking c h m) (hk : Keeps allCounts c h m m') (hf : ListFrame c m m') :
    Handshaking c h m' where
  shelved := hk.shelved
  stock := hk.stock hm.stock
  active := hf.self.control.active.trans hm.active
  indexed := ⟨(hf.index _).trans hm.indexed.dummy, fun b => by rw [hf.index]; exact hm.indexed.sb b⟩
  mode := hf.self.control.mode.trans hm.mode

/-- The frames that were returned and those that wait are one line, up to the latest frame. -/
structure InLine (c : ChanRef) (t : FrameTrace) : Prop where
  increasing : (t.frames ++ waiting t.men c).Pairwise (· < ·)
  latest : ∀ f ∈ t.frames ++ waiting t.men c, f ≤ (t.men.chan c).latestFrameNumber

theorem InLine.sublist {t t' : FrameTrace} (hl : InLine c t)
    (hsub : (t'.frames ++ waiting t'.men c).Sublist (t.frames ++ waiting t.men c))
    (hlatest : (t'.men.chan c).latestFrameNumber = (t.men.chan c).latestFrameNumber) : InLine c t' :=
  ⟨hl.increasing.sublist hsub, fun f hf => hlatest ▸ hl.latest f (hsub.subset hf)⟩

theorem InLine.thins {t : FrameTrace} (hl : InLine c t) (ht : Thins c t.men m') :
    InLine c { t with men := m' } :=
  hl.sublist (ht.waiting.append_left _) ht.latest

/-- The next frame is put at the end of the line. -/
theorem InLine.arrived {t : FrameTrace} (hl : InLine c t)
    (hlatest : (m'.chan c).latestFrameNumber = (t.men.chan c).latestFrameNumber + 1)
    (hsub : (waiting m' c).Sublist (waiting t.men c ++ [(t.men.chan c).latestFrameNumber + 1])) :
    InLine c { t with men := m' } := by
  have hline : (t.frames ++ waiting m' c).Sublist
      (t.frames ++ waiting t.men c ++ [(t.men.chan c).latestFrameNumber + 1]) := by
    rw [List.append_assoc]
    exact hsub.append_left _
  refine ⟨List.Pairwise.sublist hline ?_, fun f hf => ?_⟩
  · refine List.pairwise_append.mpr ⟨hl.increasing, List.pairwise_singleton _ _, fun f hf g hg => ?_⟩
    rw [List.mem_singleton.mp hg]
    exact Nat.lt_succ_of_le (hl.latest f hf)
  · rw [hlatest]
    rcases List.mem_append.mp (hline.subset hf) with hf | hf
    · exact Nat.le_succ_of_le (hl.latest f hf)
    · exact (List.mem_singleton.mp hf).le

theorem frameStep_inLine {t t' : FrameTrace} {op : FrameOp} (hm : Handshaking c h t.men) (hl : InLine c t)
    (hc : frameStep c t op = .ok t') : Handshaking c h t'.men ∧ InLine c t' := by
  cases op with
  | frame ts len tag =>
    obtain ⟨m', h₁, hc⟩ := bind_ok.mp hc
    cases hc
    refine ⟨hm.keeps (irqFrame_keeps hm.shelved hm.stock hm.active hm.indexed h₁) (irqFrame_frame h₁), ?_⟩
    rcases irqFrame_waiting hm.shelved hm.active hm.indexed hm.mode h₁ with ht | ⟨hlatest, hsub⟩
    · exact hl.thins ht
    · exact hl.arrived hlatest hsub
  | queueMax =>
    obtain ⟨m', h₁, hc⟩ := bind_ok.mp hc
    cases hc
    exact ⟨hm.keeps (menDmaQueueMax_keeps hm.shelved hm.stock hm.active h₁) (menDmaQueueMax_frame h₁).lists,
      hl.thins (menDmaQueueMax_thins hm.shelved hm.stock h₁)⟩
  | nextBlocked =>
    obtain ⟨⟨m', sb⟩, h₁, hc⟩ := bind_ok.mp hc
    cases hc
    refine ⟨hm.keeps (menNextBlocked_keeps hm.shelved hm.stock h₁) (menNextBlocked_frame h₁).move.lists, ?_⟩
    obtain ⟨hlatest, hline⟩ := menNextBlocked_spec h₁
    refine hl.sublist ?_ hlatest
    change (t.frames ++ (sb.map m'.frame).toList ++ waiting m' c).Sublist _
    rw [List.append_assoc, hline]
  | lastBlocked =>
    obtain ⟨⟨m', sb⟩, h₁, hc⟩ := bind_ok.mp hc
    cases hc
    refine ⟨hm.keeps (menLastBlocked_keeps hm.shelved hm.stock h₁) (menLastBlocked_frame h₁).move.lists, ?_⟩
    rcases List.eq_nil_or_concat ((t.men.chan c).list .grabbed) with he | ⟨older, newest, he⟩
    · rw [menLastBlocked_empty hm.shelved trivial he] at h₁
      cases h₁
      exact hl.sublist (by simp [FrameTrace.handOut]) rfl
    · rw [List.concat_eq_append] at he
      obtain ⟨m₁, h₂, hgrabbed, -, hframe, hlatest⟩ := menLastBlocked_spec hm.shelved trivial hm.stock he
      rw [h₁] at h₂
      obtain ⟨rfl, rfl⟩ := Prod.mk.inj (Except.ok.inj h₂)
      refine hl.sublist ?_ hlatest
      change (t.frames ++ [m'.frame newest] ++ waiting m' c).Sublist _
      rw [waiting, waiting, hgrabbed, he, hframe, List.map_append, List.map_nil, List.append_nil]
      exact (List.sublist_append_right _ _).append_left _
  | unblock slot =>
    obtain ⟨m', h₁, hc⟩ := bind_ok.mp hc
    cases hc
    have hb : ∀ b, (activeSlot t.men c slot).map BufRef.sb = some b → b ∈ t.men.regs h := by
      intro b hb
      obtain ⟨sb, hsb, rfl⟩ := Option.map_eq_some_iff.mp hb
      exact mem_regs.mpr (activeSlot_mem hm.active hsb)
    exact ⟨hm.keeps (menUnblockBuffer_keeps hm.shelved hm.stock hm.active hb h₁)
      (menUnblockBuffer_frame h₁).lists,
      hl.thins (menUnblockBuffer_thins hm.shelved hm.stock hb h₁)⟩

/-- Nothing is grabbed when the engine is started. -/
theorem startdma_grabbed {startbuf : Nat} {hw : StartHw} {ret : Ret} (hst : Stock (m.regs h) h)
    (hc : startdma (startPrepared m c h startbuf) c hw = .ok (m', ret)) : (m'.chan c).list .grabbed = [] := by
  have hk : Keeps allCounts c h m (abortdma (startPrepared m c h startbuf) c) := abortdma_keeps startbuf hst
  have hempty : ((abortdma (startPrepared m c h startbuf) c).chan c).list .grabbed = [] := by
    have hcount := hk.shelved.counted.count .grabbed trivial
    rw [held_list (by simp)] at hcount
    refine List.length_eq_zero_iff.mp (hcount.symm.trans ?_)
    simpa [abortdma, Dmachan.record] using startPrepared_grabbed m c h startbuf
  unfold startdma at hc
  cases hw with
  | refused =>
    cases hc
    exact hempty
  | running | dead | timedOut =>
    obtain ⟨m₁, h₁, hc⟩ := bind_ok.mp hc
    cases hc
    have ht := (menDmaQueueMax_thins hk.shelved (hk.stock hst) h₁).list
    rw [hempty] at ht
    exact List.sublist_nil.mp ht

theorem start_handshaking {w : StartWait} {current : Tgid} {k : Call} (hr : Registry m)
    (hk : k.Starts w current) (hmode : BitVec.ofInt 6 w.fgr.mode = DMA_HANDSHAKEMODE)
    (hc : call m k = .ok (m', .done none)) :
    Handshaking w.chan w.head m' ∧ (m'.chan w.chan).list .grabbed = [] := by
  have hr' := call_registry hr hc
  obtain ⟨hw, hhead, h₁⟩ := hk.done hc
  have hlive : w.head ∈ m.headsList := meGetBufHead_mem hhead
  have hst : Stock (m.regs w.head) w.head := hr.stock (mem_heads.mpr (.inl hlive))
  have hlive' : w.head ∈ m'.headsList := by rwa [(fgStartTail_sameRegs h₁).headsList]
  rcases fgStartTail_cases h₁ with ⟨-, h₂⟩ | ⟨e, m₁, he, -⟩
  · rcases menStartDma_cases h₂ with ⟨-, -, he⟩
      | ⟨hbusy, ⟨-, -, -, he⟩ | ⟨-, m₁, r, h₃, ⟨e, -, -, he⟩ | ⟨-, rfl, -⟩⟩⟩
    · cases he
    · cases he
    · cases he
    · rw [fgStartSetup_busy] at hbusy
      have hkeeps : Keeps allCounts w.chan w.head m _ := fgStartTail_keeps hst hbusy h₁
      refine ⟨⟨hkeeps.shelved, hkeeps.stock hst, (fgStartTail_done h₁).active,
        ⟨hr'.dummy _ hlive', hr'.sb⟩, ?_⟩, ?_⟩
      · obtain ⟨_, _, _, hctl⟩ := (startdma_primed h₃).control
        simpa [menStartDmaDone, hctl, Dmachan.cleared, Dmachan.clearLists, fgStartSetup] using hmode
      · simpa [menStartDmaDone] using startdma_grabbed (m := fgStartSetup m w.fgr w.chan) hst h₃
  · cases he

/-- `men_last_blocked` returns the newest of the grabbed buffers, and the older ones follow the
ready ones in their order. -/
def LastBlockedNewest (m : Men) (c : ChanRef) : Prop :=
  ((m.chan c).list .grabbed = [] → menLastBlocked m c = .ok (m, none)) ∧
    ∀ older newest, (m.chan c).list .grabbed = older ++ [newest] →
      (∀ b ∈ older, m.frame b < m.frame newest) ∧
        ∃ m', menLastBlocked m c = .ok (m', some newest) ∧ (m'.chan c).list .grabbed = [] ∧
          (m'.chan c).list .ready = (m.chan c).list .ready ++ older

def FramesInOrder (c : ChanRef) (t : FrameTrace) : Prop :=
  t.frames.Pairwise (· < ·) ∧ LastBlockedNewest t.men c

theorem InLine.framesInOrder {t : FrameTrace} (hm : Handshaking c h t.men) (hl : InLine c t) :
    FramesInOrder c t := by
  obtain ⟨hframes, hwaiting, -⟩ := List.pairwise_append.mp hl.increasing
  refine ⟨hframes, menLastBlocked_empty hm.shelved trivial, fun older newest he => ⟨fun b hb => ?_, ?_⟩⟩
  · rw [waiting, he, List.map_append] at hwaiting
    exact (List.pairwise_append.mp hwaiting).2.2 _ (List.mem_map_of_mem hb) _ (by simp)
  · obtain ⟨m', h₁, hgrabbed, hready, -⟩ := menLastBlocked_spec hm.shelved trivial hm.stock he
    exact ⟨m', h₁, hgrabbed, hready⟩

/-- From a successful start in handshake mode on, frames are returned in the order in which
they came in, whatever completes, is asked for and unlocked in between. -/
theorem handshake_in_order {activeFpgas : Nat} {dmacnt : List Nat} {fpga : ChanRef → Nat} {fifo : UInt32}
    {s : Sys} (hs : Reachable step (sysProbe activeFpgas dmacnt fpga fifo) s) {w : StartWait} {current : Tgid}
    {k : Call} (hk : k.Starts w current) (hmode : BitVec.ofInt 6 w.fgr.mode = DMA_HANDSHAKEMODE) {m : Men}
    (hstart : call s.men k = .ok (m, .done none)) (ops : List FrameOp) :
    Always (frameStep w.chan) (FramesInOrder w.chan) { men := m } ops := by
  have hr : Registry s.men := reachable_invariant (P := fun s : Sys => Registry s.men)
    (fun _ _ _ hr h => step_registry hr h) (registry_probe activeFpgas dmacnt fpga fifo) hs
  obtain ⟨hm, hgrabbed⟩ := start_handshaking hr hk hmode hstart
  have hline : InLine w.chan { men := m } := by
    constructor <;> simp [waiting, hgrabbed]
  refine (always_of_meets (P := fun t => Handshaking w.chan w.head t.men ∧ InLine w.chan t)
    (G := fun _ _ => True) (fun _ _ _ _ ht hc => frameStep_inLine ht.1 ht.2 hc) ⟨hm, hline⟩
    (meets_true _ ops)).mono fun t ht => ht.2.framesInOrder ht.1

section Example

/-- Two frames in handshake mode are completed and the newer one is asked for. -/
theorem handshake_in_order_two : ∃ s m,
    run step (sysProbe 1 [1] (fun _ => 0) 8) threeFramesAsked = .ok s ∧
      call s.men (.startTail ⟨threeFrames, 7, 0⟩ .running 1) = .ok (m, .done none) ∧
      Always (frameStep 0) (FramesInOrder 0) { men := m }
        [.frame 0 4 0, .nextBlocked, .unblock 0, .queueMax, .frame 1 4 0, .lastBlocked] := by
  obtain ⟨s, m, hs, hcall⟩ := threeFrames_start
  exact ⟨s, m, hs, hcall, handshake_in_order ⟨threeFramesAsked, hs⟩ (.tail .running) (by decide) hcall _⟩

end Example

end MenableDriver
