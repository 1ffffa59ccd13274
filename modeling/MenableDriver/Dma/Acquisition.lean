import MenableDriver.Dma.Account

/-!
# Acquisitions

From a start that succeeded on, a channel hands buffers to the engine, takes them back,
passes them to the application and gets them from it. In whatever order it does that, its
account is balanced.
-/

namespace MenableDriver

set_option autoImplicit false

open Transition

/-- The functions that run during an acquisition. The application gives back the buffer in a
slot of the active head. -/
inductive AcqOp where
  | queueMax
  | moveHot (ts : Nat)
  | nextBlocked
  | lastBlocked
  | unblock (slot : Nat)
deriving DecidableEq, Repr

def activeSlot (m : Men) (c : ChanRef) (slot : Nat) : Option SbRef :=
  (m.chan c).active.bind fun h => ((m.head h).bufs[slot]?).join

theorem activeSlot_mem {m : Men} {c : ChanRef} {h : HeadRef} {slot : Nat} {b : SbRef}
    (hact : (m.chan c).active = some h) (hb : activeSlot m c slot = some b) : some b ∈ (m.head h).bufs := by
  rw [activeSlot, hact, Option.bind_some, Option.join_eq_some_iff] at hb
  exact List.mem_of_getElem? hb

def acqStep (c : ChanRef) (m : Men) : AcqOp → Res Men
  | .queueMax => menDmaQueueMax m c
  | .moveHot ts => do
    let (m, _) ← menMoveHot m c ts
    .ok m
  | .nextBlocked => do
    let (m, _) ← menNextBlocked m c
    .ok m
  | .lastBlocked => do
    let (m, _) ← menLastBlocked m c
    .ok m
  | .unblock slot => menUnblockBuffer m c ((activeSlot m c slot).map .sb)

/-- What a step can be. -/
theorem acqStep_cases {m m' : Men} {c : ChanRef} {op : AcqOp} (hc : acqStep c m op = .ok m') :
    menDmaQueueMax m c = .ok m' ∨ (∃ ts sb, menMoveHot m c ts = .ok (m', sb)) ∨
      (∃ sb, menNextBlocked m c = .ok (m', sb)) ∨ (∃ sb, menLastBlocked m c = .ok (m', sb)) ∨
        ∃ slot, menUnblockBuffer m c ((activeSlot m c slot).map .sb) = .ok m' := by
  cases op with
  | queueMax => exact .inl hc
  | moveHot ts =>
    obtain ⟨⟨m₁, sb⟩, h₁, hc⟩ := bind_ok.mp hc
    cases hc
    exact .inr (.inl ⟨ts, sb, h₁⟩)
  | nextBlocked =>
    obtain ⟨⟨m₁, sb⟩, h₁, hc⟩ := bind_ok.mp hc
    cases hc
    exact .inr (.inr (.inl ⟨sb, h₁⟩))
  | lastBlocked =>
    obtain ⟨⟨m₁, sb⟩, h₁, hc⟩ := bind_ok.mp hc
    cases hc
    exact .inr (.inr (.inr (.inl ⟨sb, h₁⟩)))
  | unblock slot => exact .inr (.inr (.inr (.inr ⟨slot, hc⟩)))

/-- An empty slot is not given back. -/
theorem unblock_slot_cases {m m' : Men} {c : ChanRef} {h : HeadRef} {slot : Nat}
    (hact : (m.chan c).active = some h)
    (hc : menUnblockBuffer m c ((activeSlot m c slot).map .sb) = .ok m') :
    m' = m ∨ ∃ b, some b ∈ (m.head h).bufs ∧ menUnblockBuffer m c (some (.sb b)) = .ok m' := by
  cases hb : activeSlot m c slot with
  | none =>
    rw [hb] at hc
    cases hc
    exact .inl rfl
  | some b =>
    rw [hb] at hc
    exact .inr ⟨b, activeSlot_mem hact hb, hc⟩

section Starved
variable {m m' : Men} {c : ChanRef} {h : HeadRef}

/-- An engine that takes no buffers gets none: all of them stay ready. -/
structure Starved (m : Men) (c : ChanRef) (h : HeadRef) : Prop where
  fifo : m.dmaFifoLength.toNat = 0
  hot : (m.chan c).count .hot = 0
  grabbed : (m.chan c).count .grabbed = 0
  ready : (m.chan c).count .ready ≠ 0
  names : ∀ b, some b ∈ (m.head h).bufs → (m.buf (.sb b)).listname = .ready

theorem Starved.congr (hs : Starved m c h) (hfifo : m'.dmaFifoLength = m.dmaFifoLength)
    (hcount : (m'.chan c).count = (m.chan c).count) (hslots : (m'.head h).bufs = (m.head h).bufs)
    (hbuf : m'.buf = m.buf) : Starved m' c h := by
  constructor
  · rw [hfifo]
    exact hs.fifo
  · rw [hcount]
    exact hs.hot
  · rw [hcount]
    exact hs.grabbed
  · rw [hcount]
    exact hs.ready
  · rw [hslots, hbuf]
    exact hs.names

theorem menDmaQueueMax_starved (hs : Starved m c h) (hc : menDmaQueueMax m c = .ok m') : Starved m' c h := by
  unfold menDmaQueueMax at hc
  dsimp only at hc
  split_ifs at hc with htodo hempty hzero hbound
  · exact absurd hempty.2 hs.ready
  · exact absurd hempty.2 hs.ready
  · have hfree : numFreeInDmaFifo m c = 0 := by
      rw [numFreeInDmaFifo, hs.fifo, hs.hot]
      rfl
    have hnone : (numBufsToQueue m c).toNat = 0 := by
      have hle : numBufsToQueue m c ≤ numFreeInDmaFifo m c := numBufsToQueue_le_free
      omega
    rw [hnone] at hc
    cases hc
    exact hs.congr rfl (by simp [Dmachan.record]) rfl rfl
  · cases hc
    exact hs

theorem acqStep_starved {op : AcqOp} (hs : Starved m c h) (hact : (m.chan c).active = some h)
    (hc : acqStep c m op = .ok m') : Starved m' c h := by
  rcases acqStep_cases hc with hc | ⟨ts, sb, hc⟩ | ⟨sb, hc⟩ | ⟨sb, hc⟩ | ⟨slot, hc⟩
  · exact menDmaQueueMax_starved hs hc
  · unfold menMoveHot at hc
    dsimp only at hc
    rw [if_neg (by simp [hact]), if_neg (by simp [hs.hot])] at hc
    cases hc
    exact hs.congr rfl (by simp) rfl rfl
  · rw [menNextBlocked, if_pos hs.grabbed] at hc
    cases hc
    exact hs
  · rw [menLastBlocked, if_pos hs.grabbed] at hc
    cases hc
    exact hs
  · rcases unblock_slot_cases hact hc with rfl | ⟨b, hb, hc⟩
    · exact hs
    · simp only [menUnblockBuffer, hs.names b hb] at hc
      cases hc
      exact hs

end Starved

section Run
variable {N : Int} {ch₀ : Dmachan} {m m' : Men} {c : ChanRef} {h : HeadRef}

theorem acqStep_frame {op : AcqOp} (hc : acqStep c m op = .ok m') : ListFrame c m m' := by
  rcases acqStep_cases hc with hc | ⟨ts, sb, hc⟩ | ⟨sb, hc⟩ | ⟨sb, hc⟩ | ⟨slot, hc⟩
  · exact (menDmaQueueMax_frame hc).lists
  · exact menMoveHot_frame hc
  · exact (menNextBlocked_frame hc).move.lists
  · exact (menLastBlocked_frame hc).move.lists
  · exact (menUnblockBuffer_frame hc).lists

/-- The invariant of an acquisition. -/
structure Acquiring (N : Int) (ch₀ : Dmachan) (c : ChanRef) (h : HeadRef) (m : Men) : Prop where
  booked : Booked N m.dmaFifoLength.toNat ch₀ h (m.chan c)
  active : (m.chan c).active = some h
  indexed : Indexed m h
  fed : m.dmaFifoLength.toNat ≠ 0 ∨ (m.chan c).mode ≠ DMA_HANDSHAKEMODE ∨ Starved m c h

theorem Acquiring.ready (ha : Acquiring N ch₀ c h m) (hmode : (m.chan c).mode = DMA_HANDSHAKEMODE)
    (hempty : (m.chan c).count .ready = 0) : m.dmaFifoLength.toNat ≠ 0 := by
  rcases ha.fed with hf | hm | hs
  · exact hf
  · exact absurd hmode hm
  · exact absurd hempty hs.ready

theorem acqStep_booked {op : AcqOp} (ha : Acquiring N ch₀ c h m) (hc : acqStep c m op = .ok m') :
    Booked N m.dmaFifoLength.toNat ch₀ h (m'.chan c) := by
  rcases acqStep_cases hc with hc | ⟨ts, sb, hc⟩ | ⟨sb, hc⟩ | ⟨sb, hc⟩ | ⟨slot, hc⟩
  · exact menDmaQueueMax_booked ha.booked ha.active ha.ready hc
  · exact menMoveHot_booked ha.booked ha.active ha.indexed hc
  · exact menNextBlocked_booked ha.booked hc
  · exact menLastBlocked_booked ha.booked hc
  · rcases unblock_slot_cases ha.active hc with rfl | ⟨b, hb, hc⟩
    · exact ha.booked
    · refine menUnblockBuffer_booked ha.booked ha.active ?_ hc
      rcases ha.fed with hf | hm | hs
      · exact .inr (.inr hf)
      · exact .inr (.inl hm)
      · exact .inl (hs.names b hb)

theorem acqStep_acquiring {op : AcqOp} (ha : Acquiring N ch₀ c h m) (hc : acqStep c m op = .ok m') :
    Acquiring N ch₀ c h m' := by
  have hf := acqStep_frame hc
  have hfifo := hf.dmaFifoLength
  have hctl := hf.self.control
  refine ⟨?_, hctl.active.trans ha.active, ⟨?_, fun b => ?_⟩, ?_⟩
  · rw [hfifo]
    exact acqStep_booked ha hc
  · rw [hf.index]
    exact ha.indexed.dummy
  · rw [hf.index]
    exact ha.indexed.sb b
  · rw [hfifo, hctl.mode]
    exact ha.fed.imp_right (Or.imp_right fun hs => acqStep_starved hs ha.active hc)

end Run

section Start
variable {m m' : Men} {c : ChanRef} {h : HeadRef}

theorem cleanBhTarget_ne_hot (mode : BitVec 6) (n : ListName) : cleanBhTarget mode n ≠ .hot := by
  unfold cleanBhTarget
  split_ifs <;> simp

theorem cleanBhTarget_ne_grabbed (mode : BitVec 6) (n : ListName) : cleanBhTarget mode n ≠ .grabbed := by
  unfold cleanBhTarget
  split_ifs <;> simp

theorem cleanBhAdd_booked {N : Int} {fifo : Nat} {ch₀ : Dmachan} {b : SbRef}
    (hb : Booked N fifo ch₀ h (m.chan c)) : Booked N fifo ch₀ h ((cleanBhAdd m c (.sb b)).chan c) := by
  have hne := cleanBhTarget_ne_hot (m.chan c).mode (m.buf (.sb b)).listname
  have hhot := Dmachan.incCount_ne (m.chan c) hne.symm
  have hlist : ∀ n b', b' ∈ Shelves.putLast (m.chan c).list (.sb b)
      (cleanBhTarget (m.chan c).mode (m.buf (.sb b)).listname) n → b' ∈ (m.chan c).list n ∨
        ∃ sb, b' = .sb sb := by
    intro n b' hm
    rcases Shelves.mem_putLast.mp hm with hm | ⟨_, rfl⟩
    · exact .inl hm
    · exact .inr ⟨b, rfl⟩
  simpa [cleanBhAdd, Men.setListname, Dmachan.listAddTail, Dmachan.incCount] using
    hb.refile (m.chan c).lostCount hhot hlist

theorem cleanBhLoop_booked {N : Int} {fifo : Nat} {ch₀ : Dmachan} {slots : List (Option SbRef)}
    (hb : Booked N fifo ch₀ h (m.chan c)) : Booked N fifo ch₀ h ((cleanBhLoop m c slots).chan c) := by
  induction slots generalizing m with
  | nil => exact hb
  | cons slot slots ih =>
    cases slot with
    | none => exact ih hb
    | some b => exact ih (cleanBhAdd_booked hb)

theorem cleanBhLoop_grabbed (slots : List (Option SbRef)) :
    ((cleanBhLoop m c slots).chan c).count .grabbed = (m.chan c).count .grabbed := by
  induction slots generalizing m with
  | nil => rfl
  | cons slot slots ih =>
    cases slot with
    | none => exact ih
    | some b =>
      have hne := cleanBhTarget_ne_grabbed (m.chan c).mode (m.buf (.sb b)).listname
      have hadd : ((cleanBhAdd m c (.sb b)).chan c).count .grabbed = (m.chan c).count .grabbed := by
        simp [cleanBhAdd, Men.setListname, Dmachan.listAddTail, Dmachan.incCount, hne.symm]
      exact ih.trans hadd

theorem cleanBhLoop_ready {slots : List (Option SbRef)} (hmode : (m.chan c).mode ≠ DMA_SELECTIVEMODE)
    {b : SbRef}
    (hb : some b ∈ slots ∨ (m.buf (.sb b)).listname = .ready) :
    ((cleanBhLoop m c slots).buf (.sb b)).listname = .ready := by
  induction slots generalizing m with
  | nil => exact hb.resolve_left (by simp)
  | cons slot slots ih =>
    cases slot with
    | none => exact ih hmode (hb.imp_left fun hm => (List.mem_cons.mp hm).resolve_left (by simp))
    | some b' =>
      have htarget : cleanBhTarget (m.chan c).mode (m.buf (.sb b')).listname = .ready := if_pos hmode
      have hmode' : ((cleanBhAdd m c (.sb b')).chan c).mode ≠ DMA_SELECTIVEMODE := by
        simpa [cleanBhAdd, Men.setListname, Dmachan.listAddTail, Dmachan.incCount] using hmode
      refine ih hmode' ?_
      by_cases he : b = b'
      · refine .inr ?_
        simp [cleanBhAdd, Men.setListname, he, htarget]
      · have hname : ((cleanBhAdd m c (.sb b')).buf (.sb b)).listname = (m.buf (.sb b)).listname := by
          simp [cleanBhAdd, Men.setListname, he]
        rw [hname]
        exact hb.imp_left fun hm => (List.mem_cons.mp hm).resolve_left fun h => he (Option.some.inj h)

theorem startCleared_chan (m : Men) (c : ChanRef) (h : HeadRef) :
    (startCleared m c h).chan c = (m.chan c).cleared h := by simp [startCleared]

/-- A channel that was set up and cleared has an empty account. -/
theorem startCleared_booked {fgr : FgCtrl} (fifo : Nat) (hN : 1 ≤ startTodo fgr) :
    Booked (startTodo fgr) fifo (m.chan c) h ((startCleared (fgStartSetup m fgr c) c h).chan c) := by
  rw [startCleared_chan]
  simp only [fgStartSetup, Men.setChan_chan, if_true]
  constructor
  · constructor
    · change ((0 : Nat) : Int) ≤ startTodo fgr
      omega
    · exact Nat.zero_le fifo
    · rfl
    · change ((0 : Nat) : Int) + startTodo fgr = startTodo fgr
      omega
    · rfl
    · exact fun _ _ hm => .inl hm
  · intro n b hm
    cases hm

theorem startPrepared_booked {fgr : FgCtrl} {startbuf : Nat} (fifo : Nat) (hN : 1 ≤ startTodo fgr) :
    Booked (startTodo fgr) fifo (m.chan c) h
      ((startPrepared (fgStartSetup m fgr c) c h startbuf).chan c) := by
  rw [startPrepared_eq, setLink_chan]
  exact cleanBhLoop_booked (startCleared_booked fifo hN)

theorem abortdma_booked {N : Int} {fifo : Nat} {ch₀ : Dmachan} (hb : Booked N fifo ch₀ h (m.chan c)) :
    Booked N fifo ch₀ h ((abortdma m c).chan c) := by
  have hq : Booked N fifo ch₀ h ((m.chan c).record .abortdma) :=
    ⟨⟨hb.hot_todo, hb.hot_fifo, hb.queued, hb.frames, hb.good, fun room bound hm =>
      hb.bounds room bound ((List.mem_cons.mp hm).resolve_left (by simp))⟩, hb.own⟩
  simpa [abortdma] using hq

theorem startPrepared_names {startbuf : Nat} (hmode : (m.chan c).mode ≠ DMA_SELECTIVEMODE) {b : SbRef}
    (hb : some b ∈ (m.head h).bufs) : ((startPrepared m c h startbuf).buf (.sb b)).listname = .ready := by
  have hsame : SameRegs m (startCleared m c h) := (unlinkActive_sameRegs m c h).trans (.setChan ..)
  have hslot : some b ∈ cleanBhSlots ((startCleared m c h).head h) startbuf := by
    rw [(cleanBhSlots_perm _ _).mem_iff, hsame.slots]
    exact hb
  have hmode' : ((startCleared m c h).chan c).mode ≠ DMA_SELECTIVEMODE := by
    rw [startCleared_chan]
    exact hmode
  rw [startPrepared_eq]
  exact cleanBhLoop_ready hmode' (.inl hslot)

theorem startPrepared_grabbed (m : Men) (c : ChanRef) (h : HeadRef) (startbuf : Nat) :
    ((startPrepared m c h startbuf).chan c).count .grabbed = 0 := by
  rw [startPrepared_eq, setLink_chan, cleanBhLoop_grabbed, startCleared_chan]
  rfl

theorem startPrepared_starved {startbuf : Nat} (hfifo : m.dmaFifoLength.toNat = 0)
    (hmode : (m.chan c).mode ≠ DMA_SELECTIVEMODE)
    (hhot : ((startPrepared m c h startbuf).chan c).count .hot = 0)
    (hready : ((startPrepared m c h startbuf).chan c).count .ready ≠ 0) :
    Starved (startPrepared m c h startbuf) c h where
  fifo := by
    rw [startPrepared_eq]
    change (cleanBhLoop _ _ _).dmaFifoLength.toNat = 0
    rw [(cleanBhLoop_frame _).dmaFifoLength]
    simpa [startCleared, unlinkActive_fifo] using hfifo
  hot := hhot
  grabbed := startPrepared_grabbed m c h startbuf
  ready := hready
  names b hb := startPrepared_names hmode (by
    rwa [(startPrepared_sameRegs m c h startbuf).slots] at hb)

theorem menStartDmaDone_booked {N : Int} {fifo : Nat} {ch₀ : Dmachan} {current : Tgid}
    (hb : Booked N fifo ch₀ h (m.chan c)) : Booked N fifo ch₀ h ((menStartDmaDone m c current).chan c) := by
  have hq : Booked N fifo ch₀ h { m.chan c with
      timer := (m.chan c).timer || decide ((m.chan c).timeout ≠ 0)
      state := .started
      starter := some current } :=
    ⟨⟨hb.hot_todo, hb.hot_fifo, hb.queued, hb.frames, hb.good, hb.bounds⟩, hb.own⟩
  simpa [menStartDmaDone] using hq

/-- Only an engine that runs makes a start succeed. -/
theorem startdma_ok {hw : StartHw} (hc : startdma m c hw = .ok (m', none)) :
    menDmaQueueMax (abortdma m c) c = .ok m' := by
  unfold startdma at hc
  cases hw with
  | running =>
    obtain ⟨m₁, h₁, hc⟩ := bind_ok.mp hc
    cases hc
    exact h₁
  | refused => cases hc
  | dead | timedOut =>
    obtain ⟨m₁, _, hc⟩ := bind_ok.mp hc
    cases hc

theorem startPrepared_control (m : Men) (c : ChanRef) (h : HeadRef) (startbuf : Nat) :
    ((startPrepared m c h startbuf).chan c).active = some h ∧
      ((startPrepared m c h startbuf).chan c).mode = (m.chan c).mode := by
  have hp : (m.chan c).Primed h ((startPrepared m c h startbuf).chan c) := startPrepared_primed
  obtain ⟨⟨_, _, _, hctl⟩, _⟩ := hp
  rw [hctl]
  exact ⟨rfl, rfl⟩

theorem startPrepared_fifo {startbuf : Nat} :
    (startPrepared m c h startbuf).dmaFifoLength = m.dmaFifoLength := by
  rw [startPrepared_eq]
  change (cleanBhLoop _ _ _).dmaFifoLength = _
  rw [(cleanBhLoop_frame _).dmaFifoLength]
  exact unlinkActive_fifo

/-- The start of the engine, on a channel that has ready buffers or needs none. -/
theorem startdma_acquiring {N : Int} {ch₀ : Dmachan} {hw : StartHw} {startbuf : Nat}
    (hb : ∀ fifo, Booked N fifo ch₀ h ((startPrepared m c h startbuf).chan c)) (ht : Indexed m h)
    (hready : ¬ (((startPrepared m c h startbuf).chan c).count .ready = 0 ∧
      ((startPrepared m c h startbuf).chan c).mode ≠ DMA_SELECTIVEMODE))
    (hc : startdma (startPrepared m c h startbuf) c hw = .ok (m', none)) : Acquiring N ch₀ c h m' := by
  have hrun := startdma_ok hc
  have hframe := menDmaQueueMax_frame hrun
  have hregs := (startPrepared_sameRegs m c h startbuf).trans (startdma_sameRegs hc)
  obtain ⟨hact, hmode⟩ := startPrepared_control m c h startbuf
  have hfifo : m'.dmaFifoLength = m.dmaFifoLength := hframe.dmaFifoLength.trans startPrepared_fifo
  have hsome : (m.chan c).mode = DMA_HANDSHAKEMODE →
      ((startPrepared m c h startbuf).chan c).count .ready ≠ 0 := by
    intro hm hempty
    refine hready ⟨hempty, ?_⟩
    rw [hmode, hm]
    decide
  have hactive : ((abortdma (startPrepared m c h startbuf) c).chan c).active = some h := by
    simpa [abortdma, Dmachan.record] using hact
  have hctl := hframe.self.quiet.control
  refine ⟨?_, hctl.active.trans hactive, ⟨?_, fun b => ?_⟩, ?_⟩
  · rw [hframe.dmaFifoLength]
    refine menDmaQueueMax_booked (abortdma_booked (hb _)) hactive (fun hm hempty => ?_) hrun
    have hm' : (m.chan c).mode = DMA_HANDSHAKEMODE := by
      simpa [abortdma, Dmachan.record, hmode] using hm
    exact absurd (by simpa [abortdma, Dmachan.record] using hempty) (hsome hm')
  · rw [hregs.index]
    exact ht.dummy
  · rw [hregs.index]
    exact ht.sb b
  · rw [hfifo, hctl.mode]
    by_cases hzero : m.dmaFifoLength.toNat = 0
    · by_cases hm : (m.chan c).mode = DMA_HANDSHAKEMODE
      · have hsel : (m.chan c).mode ≠ DMA_SELECTIVEMODE := by
          rw [hm]
          decide
        have hhot := Nat.le_zero.mp (hb 0).hot_fifo
        have hs := startPrepared_starved hzero hsel hhot (hsome hm)
        have hs' : Starved (abortdma (startPrepared m c h startbuf) c) c h :=
          hs.congr rfl (by simp [abortdma, Dmachan.record]) rfl rfl
        exact .inr (.inr (menDmaQueueMax_starved hs' hrun))
      · refine .inr (.inl ?_)
        simpa [abortdma, Dmachan.record, hmode] using hm
    · exact .inl hzero

/-- A start that succeeds opens the books. -/
theorem fgStartTail_acquiring {w : StartWait} {hw : StartHw} {current : Tgid} (ht : Indexed m w.head)
    (hN : 1 ≤ startTodo w.fgr) (hc : fgStartTail m w hw current = .ok (m', none)) :
    Acquiring (startTodo w.fgr) (m.chan w.chan) w.chan w.head m' := by
  rcases fgStartTail_cases hc with ⟨_, h₁⟩ | ⟨e, _, he, _⟩
  · rcases menStartDma_cases h₁ with ⟨_, _, he⟩
      | ⟨_, ⟨_, _, _, he⟩ | ⟨hready, m₁, r, h₂, ⟨e, _, _, he⟩ | ⟨rfl, rfl, _⟩⟩⟩
    · cases he
    · cases he
    · cases he
    · have ha := startdma_acquiring (m := fgStartSetup m w.fgr w.chan)
        (fun fifo => startPrepared_booked fifo hN)
        ⟨ht.dummy, ht.sb⟩ hready h₂
      refine ⟨menStartDmaDone_booked ha.booked, ?_, ⟨ha.indexed.dummy, ha.indexed.sb⟩, ?_⟩
      · simpa [menStartDmaDone] using ha.active
      · refine ha.fed.imp_right (Or.imp (fun hm => ?_) fun hs => ?_)
        · simpa [menStartDmaDone] using hm
        · exact hs.congr rfl (by simp [menStartDmaDone]) rfl rfl
  · cases he

/-- What the account says in a state of the acquisition; `ready` is what the ready list may
hold when the bound of the loop is computed. -/
structure Balanced (N : Int) (ch₀ : Dmachan) (c : ChanRef) (m : Men) : Prop
    extends Accounts N m.dmaFifoLength.toNat ch₀ (m.chan c) where
  total : (handed (m.chan c) : Int) ≤ handed ch₀ + N
  room : numFreeInDmaFifo m c + (m.chan c).count .hot = m.dmaFifoLength.toNat
  bound : ∀ ready : Nat, 0 ≤ min (min ((m.chan c).transferTodo - (m.chan c).count .hot) ready)
    (numFreeInDmaFifo m c)

theorem Acquiring.balanced {N : Int} {ch₀ : Dmachan} (ha : Acquiring N ch₀ c h m) : Balanced N ch₀ c m := by
  have hroom := ha.booked.room
  have htodo := ha.booked.hot_todo
  have hfifo := ha.booked.hot_fifo
  have hh := ha.booked.queued
  have hf := ha.booked.frames
  exact ⟨ha.booked.toAccounts, by omega, by omega, fun ready => by omega⟩

/-- A start that succeeds has gone through `fg_start_transfer` to its end. -/
theorem Call.Starts.done {w : StartWait} {current : Tgid} {k : Call} (hk : k.Starts w current)
    (hc : call m k = .ok (m', .done none)) : ∃ hw, meGetBufHead m w.fgr.head = some w.head ∧
      fgStartTail m w hw current = .ok (m', none) := by
  rcases hk.runs hc with ⟨_, ho⟩ | ⟨hw, ret, hhead, h₁, ho⟩
  · cases ho
  · cases ret with
    | none => exact ⟨hw, hhead, h₁⟩
    | some e => cases ho

theorem start_acquiring {w : StartWait} {current : Tgid} {k : Call} (hr : Registry m)
    (hk : k.Starts w current)
    (hN : 1 ≤ startTodo w.fgr) (hc : call m k = .ok (m', .done none)) :
    Acquiring (startTodo w.fgr) (m.chan w.chan) w.chan w.head m' := by
  obtain ⟨hw, hhead, h₁⟩ := hk.done hc
  exact fgStartTail_acquiring ⟨hr.dummy _ (meGetBufHead_mem hhead), hr.sb⟩ hN h₁

end Start

/-- From a successful start on, whatever the channel does with its buffers in whatever order,
the engine gets no more than the frames that were asked for, and the bound of the loop that
feeds it is a number of buffers. -/
theorem acquisition_balanced {activeFpgas : Nat} {dmacnt : List Nat} {fpga : ChanRef → Nat} {fifo : UInt32}
    {s : Sys} (hs : Reachable step (sysProbe activeFpgas dmacnt fpga fifo) s) {w : StartWait} {current : Tgid}
    {k : Call} (hk : k.Starts w current) (hN : 1 ≤ startTodo w.fgr) {m : Men}
    (hstart : call s.men k = .ok (m, .done none)) (ops : List AcqOp) :
    Always (acqStep w.chan) (Balanced (startTodo w.fgr) (s.men.chan w.chan) w.chan) m ops := by
  have hr : Registry s.men := reachable_invariant (P := fun s : Sys => Registry s.men)
    (fun _ _ _ hr h => step_registry hr h) (registry_probe activeFpgas dmacnt fpga fifo) hs
  have ha := start_acquiring hr hk hN hstart
  exact (always_of_meets (G := fun _ _ => True) (fun _ _ _ _ ha h => acqStep_acquiring ha h) ha
    (meets_true m ops)).mono fun _ ha => ha.balanced

section Example

/-- Three frames in handshake mode with one buffer. -/
def threeFrames : FgCtrl :=
  { mode := 0x20, timeout := 0, transferTodo := 3, chan := 0, head := 0, startBuf := 0, dmaDir := 0 }

def threeFramesAsked : List Event :=
  [.run (.createHead 1 (some 7)),
    .run (.addBuffer { start := 0, length := 4096, subnr := 0, headnr := 0 } (some 3)),
    .run (.start threeFrames 0)]

theorem threeFrames_start : ∃ s m,
    run step (sysProbe 1 [1] (fun _ => 0) 8) threeFramesAsked = .ok s ∧
      call s.men (.startTail ⟨threeFrames, 7, 0⟩ .running 1) = .ok (m, .done none) := by
  obtain ⟨s, hs, hp⟩ := exists_of_check step (sysProbe 1 [1] (fun _ => 0) 8) (threeFramesAsked)
    (fun s => match call s.men (.startTail ⟨threeFrames, 7, 0⟩ .running 1) with
      | .ok (_, o) => decide (o = .done none)
      | .error _ => false) (by decide +kernel)
  split at hp
  · rename_i m o hcall
    obtain rfl := of_decide_eq_true hp
    exact ⟨s, m, hs, hcall⟩
  · cases hp

theorem acquisition_balanced_three : ∃ s m,
    run step (sysProbe 1 [1] (fun _ => 0) 8) threeFramesAsked = .ok s ∧
      call s.men (.startTail ⟨threeFrames, 7, 0⟩ .running 1) = .ok (m, .done none) ∧
      Always (acqStep 0) (Balanced 3 (s.men.chan 0) 0) m
        [.moveHot 0, .queueMax, .moveHot 1, .nextBlocked, .unblock 0, .moveHot 2] := by
  obtain ⟨s, m, hs, hcall⟩ := threeFrames_start
  exact ⟨s, m, hs, hcall, acquisition_balanced ⟨threeFramesAsked, hs⟩ (.tail .running) (by decide) hcall _⟩

end Example

end MenableDriver
