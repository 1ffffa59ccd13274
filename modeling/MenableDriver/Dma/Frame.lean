import MenableDriver.Dma.System

/-!
# What the list functions leave alone

The functions of `Dma/Buffers.lean` change one channel and the records of buffers
(`OnChan`). Of the channel, the functions that move buffers change the lists, their
counters and the history (`Moved`); a frame that comes in counts as well (`Quiet`).
-/

namespace MenableDriver

set_option autoImplicit false

open Transition

/-- What the list functions add to the history of a channel in state `st`. -/
def HwEvent.OfLists (st : ChanState) : HwEvent → Prop
  | .queued st' _ => st' = st
  | .bound _ _ | .returned _ => True
  | .stopdma | .abortdma => False

/-- The channels agree, but for the lists, the counters, the frames to transfer and
the history. -/
def Dmachan.SameControl (ch ch' : Dmachan) : Prop :=
  ∃ list count lost good img latest todo log, ch' = { ch with
    list := list
    count := count
    lostCount := lost
    goodcnt := good
    imgcnt := img
    latestFrameNumber := latest
    transferTodo := todo
    log := log }

theorem Dmachan.SameControl.refl (ch : Dmachan) : ch.SameControl ch :=
  ⟨_, _, _, _, _, _, _, _, rfl⟩

theorem Dmachan.SameControl.trans {ch ch' ch'' : Dmachan} (h : ch.SameControl ch')
    (h' : ch'.SameControl ch'') : ch.SameControl ch'' := by
  obtain ⟨_, _, _, _, _, _, _, _, rfl⟩ := h
  obtain ⟨_, _, _, _, _, _, _, _, rfl⟩ := h'
  exact ⟨_, _, _, _, _, _, _, _, rfl⟩

def Dmachan.LogGrows (ch ch' : Dmachan) : Prop :=
  ∃ es, ch'.log = es ++ ch.log ∧ ∀ e ∈ es, e.OfLists ch.state

structure Dmachan.Quiet (ch ch' : Dmachan) : Prop where
  control : ch.SameControl ch'
  log : ch.LogGrows ch'
  good : ch.goodcnt ≤ ch'.goodcnt
  todo : ch.transferTodo ≤ 0 → ch'.transferTodo ≤ 0

/-- No frame comes in. -/
structure Dmachan.Still (ch ch' : Dmachan) : Prop extends ch.Quiet ch' where
  goodcnt : ch'.goodcnt = ch.goodcnt
  transferTodo : ch'.transferTodo = ch.transferTodo

/-- Nothing is handed to the engine either. -/
def Dmachan.Refiled (ch ch' : Dmachan) : Prop :=
  ∃ list count, ch' = { ch with list := list, count := count }

structure Dmachan.Moved (ch ch' : Dmachan) : Prop where
  control : ∃ list count log, ch' = { ch with list := list, count := count, log := log }
  log : ch.LogGrows ch'

namespace Dmachan.SameControl
variable {ch ch' : Dmachan} (h : ch.SameControl ch')
include h

theorem active : ch'.active = ch.active := by obtain ⟨_, _, _, _, _, _, _, _, rfl⟩ := h; rfl
theorem state : ch'.state = ch.state := by obtain ⟨_, _, _, _, _, _, _, _, rfl⟩ := h; rfl
theorem mode : ch'.mode = ch.mode := by obtain ⟨_, _, _, _, _, _, _, _, rfl⟩ := h; rfl
theorem waitList : ch'.waitList = ch.waitList := by obtain ⟨_, _, _, _, _, _, _, _, rfl⟩ := h; rfl
theorem dwork : ch'.dwork = ch.dwork := by obtain ⟨_, _, _, _, _, _, _, _, rfl⟩ := h; rfl
theorem working : ch'.working = ch.working := by obtain ⟨_, _, _, _, _, _, _, _, rfl⟩ := h; rfl
theorem timeout : ch'.timeout = ch.timeout := by obtain ⟨_, _, _, _, _, _, _, _, rfl⟩ := h; rfl
theorem fpga : ch'.fpga = ch.fpga := by obtain ⟨_, _, _, _, _, _, _, _, rfl⟩ := h; rfl
theorem number : ch'.number = ch.number := by obtain ⟨_, _, _, _, _, _, _, _, rfl⟩ := h; rfl
theorem starter : ch'.starter = ch.starter := by obtain ⟨_, _, _, _, _, _, _, _, rfl⟩ := h; rfl

end Dmachan.SameControl

namespace Dmachan

theorem LogGrows.refl (ch : Dmachan) : ch.LogGrows ch := ⟨[], rfl, by simp⟩

theorem LogGrows.trans {ch ch' ch'' : Dmachan} (hst : ch'.state = ch.state) (h : ch.LogGrows ch')
    (h' : ch'.LogGrows ch'') : ch.LogGrows ch'' := by
  obtain ⟨es, hes, hall⟩ := h
  obtain ⟨es', hes', hall'⟩ := h'
  refine ⟨es' ++ es, by rw [hes', hes, List.append_assoc], fun e he => ?_⟩
  rcases List.mem_append.mp he with he | he
  · exact hst ▸ hall' e he
  · exact hall e he

namespace Quiet
variable {ch ch' ch'' : Dmachan}

theorem refl (ch : Dmachan) : ch.Quiet ch := ⟨.refl _, .refl _, Nat.le_refl _, id⟩

theorem trans (h : ch.Quiet ch') (h' : ch'.Quiet ch'') : ch.Quiet ch'' where
  control := h.control.trans h'.control
  log := h.log.trans h.control.state h'.log
  good := Nat.le_trans h.good h'.good
  todo ht := h'.todo (h.todo ht)

/-- Only lists and counters change. -/
theorem lists (ch : Dmachan) (list : ListName → List BufRef) (count : ListName → Nat) (lost : Nat) :
    ch.Still { ch with list := list, count := count, lostCount := lost } :=
  ⟨⟨⟨_, _, _, _, _, _, _, _, rfl⟩, .refl _, Nat.le_refl _, id⟩, rfl, rfl⟩

end Quiet

theorem Still.refl (ch : Dmachan) : ch.Still ch := ⟨.refl ch, rfl, rfl⟩

namespace Moved
variable {ch ch' ch'' : Dmachan}

theorem quiet (h : ch.Moved ch') : ch.Quiet ch' := by
  obtain ⟨⟨_, _, _, rfl⟩, hlog⟩ := h
  exact ⟨⟨_, _, _, _, _, _, _, _, rfl⟩, hlog, Nat.le_refl _, id⟩

theorem still (h : ch.Moved ch') : ch.Still ch' := by
  have hq := h.quiet
  obtain ⟨⟨_, _, _, rfl⟩, _⟩ := h
  exact ⟨hq, rfl, rfl⟩

theorem refl (ch : Dmachan) : ch.Moved ch := ⟨⟨_, _, _, rfl⟩, .refl _⟩

theorem trans (h : ch.Moved ch') (h' : ch'.Moved ch'') : ch.Moved ch'' where
  control := by
    obtain ⟨_, _, _, rfl⟩ := h.control
    obtain ⟨_, _, _, rfl⟩ := h'.control
    exact ⟨_, _, _, rfl⟩
  log := h.log.trans h.quiet.control.state h'.log

theorem lists (ch : Dmachan) (list : ListName → List BufRef) (count : ListName → Nat) :
    ch.Moved { ch with list := list, count := count } :=
  ⟨⟨_, _, _, rfl⟩, .refl _⟩

theorem record {e : HwEvent} (he : e.OfLists ch.state) : ch.Moved (ch.record e) :=
  ⟨⟨_, _, _, rfl⟩, [e], rfl, by simpa using he⟩

section
variable (h : ch.Moved ch')
include h

theorem latestFrameNumber : ch'.latestFrameNumber = ch.latestFrameNumber := by
  obtain ⟨_, _, _, rfl⟩ := h.control; rfl

end

end Moved

end Dmachan

/-- Only the channel `c`, in the way `R` says, and records of buffers change. -/
structure OnChan (R : Dmachan → Dmachan → Prop) (c : ChanRef) (m m' : Men) : Prop where
  board : ∃ chan buf, m' = { m with chan := chan, buf := buf }
  other : ∀ c', c' ≠ c → m'.chan c' = m.chan c'
  self : R (m.chan c) (m'.chan c)
  index : ∀ b, (m'.buf b).index = (m.buf b).index

abbrev ListFrame := OnChan Dmachan.Quiet
abbrev MoveFrame := OnChan Dmachan.Moved
abbrev FileFrame := OnChan Dmachan.Refiled

namespace OnChan
variable {R : Dmachan → Dmachan → Prop} {c : ChanRef} {m m' m'' : Men}

section Board
variable (h : OnChan R c m m')
include h

theorem head : m'.head = m.head := by obtain ⟨_, _, rfl⟩ := h.board; rfl
theorem headsList : m'.headsList = m.headsList := by obtain ⟨_, _, rfl⟩ := h.board; rfl
theorem doomed : m'.doomed = m.doomed := by obtain ⟨_, _, rfl⟩ := h.board; rfl
theorem doomedHeads : m'.doomedHeads = m.doomedHeads := by obtain ⟨_, _, rfl⟩ := h.board; rfl
theorem groups : m'.groups = m.groups := by obtain ⟨_, _, rfl⟩ := h.board; rfl
theorem use : m'.use = m.use := by obtain ⟨_, _, rfl⟩ := h.board; rfl
theorem files : m'.files = m.files := by obtain ⟨_, _, rfl⟩ := h.board; rfl
theorem dmacnt : m'.dmacnt = m.dmacnt := by obtain ⟨_, _, rfl⟩ := h.board; rfl
theorem activeFpgas : m'.activeFpgas = m.activeFpgas := by obtain ⟨_, _, rfl⟩ := h.board; rfl
theorem dmaFifoLength : m'.dmaFifoLength = m.dmaFifoLength := by obtain ⟨_, _, rfl⟩ := h.board; rfl

end Board

theorem of_setChan {ch : Dmachan} (h : R (m.chan c) ch) : OnChan R c m (m.setChan c ch) where
  board := ⟨_, _, rfl⟩
  other c' hc := by simp [hc]
  self := by simpa using h
  index _ := rfl

end OnChan

namespace ListFrame
variable {c : ChanRef} {m m' m'' : Men}

theorem setChan {ch : Dmachan} (h : (m.chan c).Quiet ch) : ListFrame c m (m.setChan c ch) :=
  .of_setChan h

theorem trans (h : ListFrame c m m') (h' : ListFrame c m' m'') : ListFrame c m m'' where
  board := by
    obtain ⟨_, _, rfl⟩ := h.board
    obtain ⟨_, _, rfl⟩ := h'.board
    exact ⟨_, _, rfl⟩
  other c' hc := (h'.other c' hc).trans (h.other c' hc)
  self := h.self.trans h'.self
  index b := (h'.index b).trans (h.index b)

theorem quiet (h : ListFrame c m m') (c' : ChanRef) : (m.chan c').Quiet (m'.chan c') := by
  rcases eq_or_ne c' c with rfl | hc
  · exact h.self
  · rw [h.other c' hc]
    exact .refl _

end ListFrame

namespace MoveFrame
variable {c : ChanRef} {m m' m'' : Men}

theorem setChan {ch : Dmachan} (h : (m.chan c).Moved ch) : MoveFrame c m (m.setChan c ch) :=
  .of_setChan h

theorem refl (c : ChanRef) (m : Men) : MoveFrame c m m :=
  ⟨⟨_, _, rfl⟩, fun _ _ => rfl, .refl _, fun _ => rfl⟩

theorem lists (h : MoveFrame c m m') : ListFrame c m m' := ⟨h.board, h.other, h.self.quiet, h.index⟩

theorem trans (h : MoveFrame c m m') (h' : MoveFrame c m' m'') : MoveFrame c m m'' :=
  ⟨(h.lists.trans h'.lists).board, (h.lists.trans h'.lists).other, h.self.trans h'.self,
    (h.lists.trans h'.lists).index⟩

theorem modBuf {b : BufRef} {f : Dmabuf → Dmabuf} (hf : (f (m.buf b)).index = (m.buf b).index) :
    MoveFrame c m (m.modBuf b f) where
  board := ⟨_, _, rfl⟩
  other _ _ := rfl
  self := .refl _
  index b' := by
    rcases eq_or_ne b' b with rfl | hb
    · simpa using hf
    · simp [hb]

end MoveFrame

namespace FileFrame
variable {c : ChanRef} {m m' m'' : Men}

theorem move (h : FileFrame c m m') : MoveFrame c m m' where
  board := h.board
  other := h.other
  self := by
    obtain ⟨list, count, he⟩ := h.self
    rw [he]
    exact .lists ..
  index := h.index

theorem refl (c : ChanRef) (m : Men) : FileFrame c m m :=
  ⟨⟨_, _, rfl⟩, fun _ _ => rfl, ⟨_, _, rfl⟩, fun _ => rfl⟩

theorem trans (h : FileFrame c m m') (h' : FileFrame c m' m'') : FileFrame c m m'' where
  board := (h.move.trans h'.move).board
  other := (h.move.trans h'.move).other
  self := by
    obtain ⟨_, _, he⟩ := h.self
    obtain ⟨list, count, he'⟩ := h'.self
    exact ⟨list, count, by rw [he', he]⟩
  index := (h.move.trans h'.move).index

theorem setChan {ch : Dmachan} (h : (m.chan c).Refiled ch) : FileFrame c m (m.setChan c ch) :=
  .of_setChan h

theorem modBuf {b : BufRef} {f : Dmabuf → Dmabuf} (hf : (f (m.buf b)).index = (m.buf b).index) :
    FileFrame c m (m.modBuf b f) :=
  ⟨⟨_, _, rfl⟩, fun _ _ => rfl, ⟨_, _, rfl⟩, (MoveFrame.modBuf (c := c) hf).index⟩

end FileFrame

section Functions
variable {m m' : Men} {c : ChanRef}

theorem queueSb_frame (m : Men) (c : ChanRef) (b : BufRef) : MoveFrame c m (queueSb m c b) :=
  MoveFrame.setChan (.record rfl)

theorem queueDummy_frame (m : Men) (c : ChanRef) (h : HeadRef) : MoveFrame c m (queueDummy m c h) :=
  (queueSb_frame m c _).trans (MoveFrame.setChan (.lists ..))

theorem queueReady_frame (h : queueReady m c = .ok m') : MoveFrame c m m' := by
  obtain ⟨sb, _, h⟩ := bind_ok.mp h
  obtain ⟨ch, hch, h⟩ := bind_ok.mp h
  obtain ⟨_, rfl⟩ := Dmachan.listMoveTail_ok.mp hch
  cases h
  exact ((queueSb_frame m c sb).trans (MoveFrame.setChan (.lists ..))).trans (MoveFrame.modBuf rfl)

theorem queueLoop_frame {n : Nat} (h : queueLoop m c n = .ok m') : MoveFrame c m m' := by
  induction n generalizing m with
  | zero =>
    cases h
    exact MoveFrame.refl c _
  | succ n ih =>
    obtain ⟨m₁, h₁, h⟩ := bind_ok.mp h
    exact (queueReady_frame h₁).trans (ih h)

theorem menDmaQueueMax_frame (h : menDmaQueueMax m c = .ok m') : MoveFrame c m m' := by
  unfold menDmaQueueMax at h
  dsimp only at h
  split_ifs at h
  · split at h
    · cases h
      exact queueDummy_frame m c _
    · cases h
      exact MoveFrame.refl c _
  · cases h
    exact MoveFrame.refl c _
  · exact (MoveFrame.setChan (.record (e := .bound _ _) trivial)).trans (queueLoop_frame h)
  · cases h
    exact MoveFrame.refl c _

theorem moveHotTake_frame {b : BufRef} (h : moveHotTake m c b = .ok m') : ListFrame c m m' := by
  unfold moveHotTake at h
  dsimp only at h
  split_ifs at h
  · obtain ⟨ch, hch, h⟩ := bind_ok.mp h
    obtain ⟨_, rfl⟩ := Dmachan.listDel_ok.mp hch
    cases h
    exact ListFrame.setChan (Dmachan.Quiet.lists ..).toQuiet
  · obtain ⟨ch, hch, h⟩ := bind_ok.mp h
    obtain ⟨_, rfl⟩ := Dmachan.listMoveTail_ok.mp hch
    cases h
    exact (ListFrame.setChan
      ⟨⟨_, _, _, _, _, _, _, _, rfl⟩, ⟨[], rfl, by simp⟩, Nat.le_succ _, id⟩).trans
        (MoveFrame.modBuf rfl).lists

theorem menMoveHot_frame {ts : Nat} {sb : Option BufRef} (h : menMoveHot m c ts = .ok (m', sb)) :
    ListFrame c m m' := by
  unfold menMoveHot at h
  dsimp only at h
  split_ifs at h
  · cases h
    exact ListFrame.setChan
      ⟨⟨_, _, _, _, _, _, _, _, rfl⟩, ⟨[], rfl, by simp⟩, Nat.le_refl _, fun _ => Int.le_refl 0⟩
  · obtain ⟨b, _, h⟩ := bind_ok.mp h
    obtain ⟨m₁, h₁, h⟩ := bind_ok.mp h
    cases h
    refine ((moveHotTake_frame h₁).trans
      (ListFrame.setChan
        ⟨⟨_, _, _, _, _, _, _, _, rfl⟩, ⟨[.returned b], rfl, ?_⟩, Nat.le_refl _, ?_⟩)).trans
          (MoveFrame.modBuf rfl).lists
    · simp [HwEvent.OfLists]
    · intro ht
      change (m₁.chan c).transferTodo - 1 ≤ 0
      omega
  · cases h
    exact ListFrame.setChan (Dmachan.Quiet.lists ..).toQuiet

theorem lockFirstGrabbed_frame {b : BufRef} (h : lockFirstGrabbed m c = .ok (m', b)) :
    FileFrame c m m' := by
  obtain ⟨sb, _, h⟩ := bind_ok.mp h
  obtain ⟨ch, hch, h⟩ := bind_ok.mp h
  obtain ⟨_, rfl⟩ := Dmachan.listDel_ok.mp hch
  cases h
  exact (FileFrame.setChan ⟨_, _, rfl⟩).trans (FileFrame.modBuf rfl)

theorem menNextBlocked_frame {sb : Option BufRef} (h : menNextBlocked m c = .ok (m', sb)) :
    FileFrame c m m' := by
  unfold menNextBlocked at h
  split_ifs at h
  · cases h
    exact FileFrame.refl c _
  · obtain ⟨⟨m₁, b⟩, h₁, h⟩ := bind_ok.mp h
    cases h
    exact (lockFirstGrabbed_frame h₁).trans (FileFrame.setChan ⟨_, _, rfl⟩)

theorem releaseGrabbed_frame {n : Nat} (h : releaseGrabbed m c n = .ok m') : FileFrame c m m' := by
  induction n generalizing m with
  | zero =>
    cases h
    exact FileFrame.refl c _
  | succ n ih =>
    obtain ⟨b, _, h⟩ := bind_ok.mp h
    obtain ⟨ch, hch, h⟩ := bind_ok.mp h
    obtain ⟨_, rfl⟩ := Dmachan.listMoveTail_ok.mp hch
    exact ((FileFrame.setChan ⟨_, _, rfl⟩).trans (FileFrame.modBuf rfl)).trans (ih h)

theorem menLastBlocked_frame {sb : Option BufRef} (h : menLastBlocked m c = .ok (m', sb)) :
    FileFrame c m m' := by
  unfold menLastBlocked at h
  split_ifs at h
  · cases h
    exact FileFrame.refl c _
  · obtain ⟨m₁, h₁, h⟩ := bind_ok.mp h
    obtain ⟨⟨m₂, b⟩, h₂, h⟩ := bind_ok.mp h
    cases h
    exact ((releaseGrabbed_frame h₁).trans (lockFirstGrabbed_frame h₂)).trans
      (FileFrame.setChan ⟨_, _, rfl⟩)

theorem queueIfLow_frame (h : queueIfLow m c = .ok m') : MoveFrame c m m' := by
  unfold queueIfLow at h
  split_ifs at h
  · exact menDmaQueueMax_frame h
  · cases h
    exact MoveFrame.refl c _

theorem menUnblockBuffer_frame {sb : Option BufRef} (h : menUnblockBuffer m c sb = .ok m') :
    MoveFrame c m m' := by
  unfold menUnblockBuffer at h
  split at h
  · cases h
    exact MoveFrame.refl c _
  · split at h
    · cases h
      exact MoveFrame.refl c _
    · cases h
      exact MoveFrame.refl c _
    · cases h
      exact MoveFrame.refl c _
    · obtain ⟨ch, hch, h⟩ := bind_ok.mp h
      obtain ⟨_, rfl⟩ := Dmachan.listMoveTail_ok.mp hch
      exact ((MoveFrame.modBuf rfl).trans (MoveFrame.setChan (.lists ..))).trans (queueIfLow_frame h)
    · exact ((MoveFrame.modBuf rfl).trans (MoveFrame.setChan (.lists ..))).trans (queueIfLow_frame h)

theorem unblockAll_frame {sbs : List (Option SbRef)} (h : unblockAll m c sbs = .ok m') :
    MoveFrame c m m' := by
  induction sbs generalizing m with
  | nil =>
    cases h
    exact MoveFrame.refl c _
  | cons sb sbs ih =>
    obtain ⟨m₁, h₁, h⟩ := bind_ok.mp h
    exact (menUnblockBuffer_frame h₁).trans (ih h)

theorem menQueueBufferMove_frame {b : SbRef} (h : menQueueBufferMove m c b = .ok m') :
    MoveFrame c m m' := by
  obtain ⟨ch, hch, h⟩ := bind_ok.mp h
  obtain ⟨_, rfl⟩ := Dmachan.listMoveTail_ok.mp hch
  exact ((MoveFrame.setChan (.lists ..)).trans (MoveFrame.modBuf rfl)).trans (menDmaQueueMax_frame h)

theorem irqFrame_frame {ts len tag : Nat} (h : irqFrame m c ts len tag = .ok m') :
    ListFrame c m m' := by
  obtain ⟨⟨m₁, sb⟩, h₁, h⟩ := bind_ok.mp h
  have hf := menMoveHot_frame h₁
  cases sb with
  | none =>
    cases h
    exact hf
  | some b =>
    dsimp only at h
    split_ifs at h
    · cases h
      exact hf
    · cases h
      exact hf.trans (MoveFrame.modBuf rfl).lists

end Functions

end MenableDriver
