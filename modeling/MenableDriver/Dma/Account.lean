import MenableDriver.Dma.Registry

/-!
# The account of an acquisition

The frames that are still to come, the ones that came in and the buffers that the engine has
add up to the frames that were asked for. Every function that moves buffers keeps the account
of the channel it works on.
-/

namespace MenableDriver

set_option autoImplicit false

open Transition

def HwEvent.isQueued : HwEvent → Bool
  | .queued _ _ => true
  | _ => false

def HwEvent.isDummyFrame : HwEvent → Bool
  | .returned (.dummy _) => true
  | _ => false

/-- The buffers that were handed to the engine so far. -/
def handed (ch : Dmachan) : Nat := ch.log.countP HwEvent.isQueued

/-- The frames that the engine wrote to a dummy buffer so far. -/
def dummyFrames (ch : Dmachan) : Nat := ch.log.countP HwEvent.isDummyFrame

/-- The books of an acquisition of `N` frames that began on the channel `ch₀`. -/
structure Accounts (N : Int) (fifo : Nat) (ch₀ ch : Dmachan) : Prop where
  hot_todo : (ch.count .hot : Int) ≤ ch.transferTodo
  hot_fifo : ch.count .hot ≤ fifo
  queued : handed ch = handed ch₀ + ch.latestFrameNumber + ch.count .hot
  frames : ch.latestFrameNumber + ch.transferTodo = N
  good : ch.latestFrameNumber + dummyFrames ch₀ = ch.goodcnt + dummyFrames ch
  bounds : ∀ (room : Nat) (bound : Int), .bound room bound ∈ ch.log →
    .bound room bound ∈ ch₀.log ∨ (0 ≤ bound ∧ bound ≤ room ∧ room ≤ fifo)

/-- The books with what the lists can hold: only a hot buffer can be a dummy, and only the one
of the head. -/
structure Booked (N : Int) (fifo : Nat) (ch₀ : Dmachan) (h : HeadRef) (ch : Dmachan) : Prop
    extends Accounts N fifo ch₀ ch where
  own : ∀ n b, b ∈ ch.list n → (∃ sb, b = .sb sb) ∨ (b = .dummy h ∧ n = .hot)

namespace Booked
variable {N : Int} {fifo : Nat} {ch₀ ch : Dmachan} {h : HeadRef} {list : ListName → List BufRef}
  {count : ListName → Nat}

theorem sb_of_mem {n : ListName} {b : BufRef} (hb : Booked N fifo ch₀ h ch) (hm : b ∈ ch.list n)
    (hn : n ≠ .hot) : ∃ sb, b = .sb sb := (hb.own n b hm).resolve_right fun hd => hn hd.2

/-- Buffers change their lists, but none becomes hot. -/
theorem refile (hb : Booked N fifo ch₀ h ch) (lost : Nat) (hhot : count .hot = ch.count .hot)
    (hlist : ∀ n b, b ∈ list n → b ∈ ch.list n ∨ ∃ sb, b = .sb sb) :
    Booked N fifo ch₀ h { ch with list := list, count := count, lostCount := lost } where
  hot_todo := by
    change ((count .hot : Nat) : Int) ≤ ch.transferTodo
    rw [hhot]
    exact hb.hot_todo
  hot_fifo := by
    change count .hot ≤ fifo
    rw [hhot]
    exact hb.hot_fifo
  queued := by
    change handed ch = _ + count .hot
    rw [hhot]
    exact hb.queued
  frames := hb.frames
  good := hb.good
  bounds := hb.bounds
  own n b hm := by
    rcases hlist n b hm with hold | hsb
    · exact hb.own n b hold
    · exact .inl hsb

/-- One more buffer is hot. -/
theorem queue (hb : Booked N fifo ch₀ h ch) (st : ChanState) (b : BufRef)
    (htodo : (ch.count .hot : Int) < ch.transferTodo) (hroom : ch.count .hot < fifo)
    (hhot : count .hot = ch.count .hot + 1)
    (hlist : ∀ n b, b ∈ list n → (∃ sb, b = .sb sb) ∨ (b = .dummy h ∧ n = .hot)) :
    Booked N fifo ch₀ h { ch.record (.queued st b) with list := list, count := count } where
  hot_todo := by
    change ((count .hot : Nat) : Int) ≤ ch.transferTodo
    omega
  hot_fifo := by
    change count .hot ≤ fifo
    omega
  queued := by
    have hh := hb.queued
    change List.countP HwEvent.isQueued (.queued st b :: ch.log) =
      handed ch₀ + ch.latestFrameNumber + count .hot
    rw [List.countP_cons_of_pos rfl, hhot]
    change handed ch + 1 = _
    omega
  frames := hb.frames
  good := hb.good
  bounds room bound hm := by
    rcases List.mem_cons.mp hm with he | hm
    · cases he
    · exact hb.bounds room bound hm
  own := hlist

/-- A frame comes in. -/
theorem back (hb : Booked N fifo ch₀ h ch) (b : BufRef) (good lost img : Nat)
    (hhot : count .hot + 1 = ch.count .hot)
    (hgood : good + (if HwEvent.isDummyFrame (.returned b) then 1 else 0) = ch.goodcnt + 1)
    (hlist : ∀ n b, b ∈ list n → b ∈ ch.list n ∨ ∃ sb, b = .sb sb) :
    Booked N fifo ch₀ h ({ ch with
      list := list
      count := count
      goodcnt := good
      lostCount := lost
      imgcnt := img
      transferTodo := ch.transferTodo - 1
      latestFrameNumber := ch.latestFrameNumber + 1 }.record (.returned b)) where
  hot_todo := by
    have ht := hb.hot_todo
    change ((count .hot : Nat) : Int) ≤ ch.transferTodo - 1
    omega
  hot_fifo := by
    have hf := hb.hot_fifo
    change count .hot ≤ fifo
    omega
  queued := by
    have hh := hb.queued
    change List.countP HwEvent.isQueued (.returned b :: ch.log) =
      handed ch₀ + (ch.latestFrameNumber + 1) + count .hot
    rw [List.countP_cons_of_neg (by simp [HwEvent.isQueued])]
    change handed ch = _
    omega
  frames := by
    have hf := hb.frames
    change ((ch.latestFrameNumber + 1 : Nat) : Int) + (ch.transferTodo - 1) = N
    omega
  good := by
    have hg := hb.good
    change ch.latestFrameNumber + 1 + dummyFrames ch₀ =
      good + List.countP HwEvent.isDummyFrame (.returned b :: ch.log)
    rw [List.countP_cons]
    change _ = good + (dummyFrames ch + _)
    omega
  bounds room bound hm := by
    rcases List.mem_cons.mp hm with he | hm
    · cases he
    · exact hb.bounds room bound hm
  own n b hm := by
    rcases hlist n b hm with hold | hsb
    · exact hb.own n b hold
    · exact .inl hsb

/-- A bound is computed. -/
theorem bound {room : Nat} {bound : Int} (hb : Booked N fifo ch₀ h ch) (h0 : 0 ≤ bound) (hle : bound ≤ room)
    (hroom : room ≤ fifo) : Booked N fifo ch₀ h (ch.record (.bound room bound)) where
  hot_todo := hb.hot_todo
  hot_fifo := hb.hot_fifo
  queued := hb.queued
  frames := hb.frames
  good := hb.good
  bounds room' bound' hm := by
    rcases List.mem_cons.mp hm with he | hm
    · cases he
      exact .inr ⟨h0, hle, hroom⟩
    · exact hb.bounds room' bound' hm
  own := hb.own

end Booked

section Functions
variable {N : Int} {ch₀ : Dmachan} {m m' : Men} {c : ChanRef} {h : HeadRef}

theorem fifo_lt_wrap (fifo : UInt32) : fifo.toNat < Counter.wrap := fifo.toNat_lt

/-- The difference of the two unsigned numbers does not wrap. -/
theorem Booked.room (hb : Booked N m.dmaFifoLength.toNat ch₀ h (m.chan c)) :
    numFreeInDmaFifo m c = m.dmaFifoLength.toNat - (m.chan c).count .hot :=
  Counter.sub_eq hb.hot_fifo (fifo_lt_wrap _)

theorem queueReady_booked (hb : Booked N m.dmaFifoLength.toNat ch₀ h (m.chan c))
    (htodo : ((m.chan c).count .hot : Int) < (m.chan c).transferTodo)
    (hroom : (m.chan c).count .hot < m.dmaFifoLength.toNat) (hc : queueReady m c = .ok m') :
    Booked N m.dmaFifoLength.toNat ch₀ h (m'.chan c) ∧
      (m'.chan c).count .hot = (m.chan c).count .hot + 1 := by
  obtain ⟨b, hfirst, hc⟩ := bind_ok.mp hc
  obtain ⟨ch, hch, hc⟩ := bind_ok.mp hc
  obtain ⟨_, rfl⟩ := Dmachan.listMoveTail_ok.mp hch
  cases hc
  obtain ⟨rest, hready⟩ := Dmachan.listFirst_ok.mp hfirst
  obtain ⟨sb, rfl⟩ := hb.sb_of_mem (n := .ready) (b := b) (by simp [hready]) (by simp)
  have hlt := fifo_lt_wrap m.dmaFifoLength
  have hinc : Counter.inc ((m.chan c).count .hot) = (m.chan c).count .hot + 1 := Counter.inc_eq (by omega)
  constructor
  · have hhot : (((m.chan c).decCount .ready).incCount .hot).count .hot = (m.chan c).count .hot + 1 := by
      rw [Dmachan.incCount_same, Dmachan.decCount_ne _ (by simp), hinc]
    have hlist : ∀ n b, b ∈ Shelves.moveLast (m.chan c).list (.sb sb) .hot n →
        (∃ sb, b = .sb sb) ∨ (b = .dummy h ∧ n = .hot) := by
      intro n b hm
      rcases Shelves.mem_moveLast hm with hm | ⟨_, rfl⟩
      · exact hb.own n b hm
      · exact .inl ⟨sb, rfl⟩
    have hq := hb.queue (m.chan c).state (.sb sb) htodo hroom hhot hlist
    simpa [queueSb, Dmachan.incCount, Dmachan.decCount, Dmachan.record] using hq
  · simpa [queueSb, Dmachan.incCount, Dmachan.decCount, Dmachan.record] using hinc

theorem queueLoop_booked {n : Nat} (hb : Booked N m.dmaFifoLength.toNat ch₀ h (m.chan c))
    (htodo : ((m.chan c).count .hot : Int) + n ≤ (m.chan c).transferTodo)
    (hroom : (m.chan c).count .hot + n ≤ m.dmaFifoLength.toNat) (hc : queueLoop m c n = .ok m') :
    Booked N m.dmaFifoLength.toNat ch₀ h (m'.chan c) := by
  induction n generalizing m with
  | zero =>
    cases hc
    exact hb
  | succ n ih =>
    obtain ⟨m₁, h₁, hc⟩ := bind_ok.mp hc
    have hf := queueReady_frame h₁
    obtain ⟨hb₁, hhot⟩ := queueReady_booked hb (by omega) (by omega) h₁
    rw [← hf.dmaFifoLength] at hb₁ hroom ⊢
    refine ih hb₁ ?_ ?_ hc
    · rw [hf.self.still.transferTodo, hhot]
      push_cast at htodo ⊢
      omega
    · omega

theorem numBufsToQueue_le_free : numBufsToQueue m c ≤ numFreeInDmaFifo m c := by
  dsimp only [numBufsToQueue]
  omega

theorem numBufsToQueue_le_todo : numBufsToQueue m c ≤ (m.chan c).transferTodo - (m.chan c).count .hot := by
  dsimp only [numBufsToQueue]
  omega

/-- The bound is never negative, and the loop does not queue more than it may. -/
theorem menDmaQueueMax_booked (hb : Booked N m.dmaFifoLength.toNat ch₀ h (m.chan c))
    (hact : (m.chan c).active = some h)
    (hfed : (m.chan c).mode = DMA_HANDSHAKEMODE → (m.chan c).count .ready = 0 → m.dmaFifoLength.toNat ≠ 0)
    (hc : menDmaQueueMax m c = .ok m') : Booked N m.dmaFifoLength.toNat ch₀ h (m'.chan c) := by
  have hlt := fifo_lt_wrap m.dmaFifoLength
  unfold menDmaQueueMax at hc
  dsimp only at hc
  split_ifs at hc with htodo hempty hzero hbound
  · rw [hact] at hc
    cases hc
    have hroom := hfed hempty.1 hempty.2
    have hinc : Counter.inc ((m.chan c).count .hot) = (m.chan c).count .hot + 1 := Counter.inc_eq (by omega)
    have hhot : ((m.chan c).incCount .hot).count .hot = (m.chan c).count .hot + 1 := by
      rw [Dmachan.incCount_same, hinc]
    have hlist : ∀ n b, b ∈ Shelves.putFirst (m.chan c).list (.dummy h) .hot n →
        (∃ sb, b = .sb sb) ∨ (b = .dummy h ∧ n = .hot) := by
      intro n b hm
      rcases Shelves.mem_putFirst.mp hm with hm | ⟨rfl, rfl⟩
      · exact hb.own n b hm
      · exact .inr ⟨rfl, rfl⟩
    have hq := hb.queue (m.chan c).state (.dummy h) htodo (by omega) hhot hlist
    simpa [queueDummy, queueSb, Dmachan.incCount, Dmachan.listAdd, Dmachan.record] using hq
  · cases hc
    exact hb
  · have hroom := hb.room
    have hfifo := hb.hot_fifo
    have hle : numBufsToQueue m c ≤ numFreeInDmaFifo m c := numBufsToQueue_le_free
    have hlast : numBufsToQueue m c ≤ (m.chan c).transferTodo - (m.chan c).count .hot :=
      numBufsToQueue_le_todo
    have hb₁ : Booked N m.dmaFifoLength.toNat ch₀ h ((m.setChan c ((m.chan c).record
        (.bound (numFreeInDmaFifo m c) (numBufsToQueue m c)))).chan c) := by
      simpa using hb.bound hbound hle (by omega)
    refine queueLoop_booked (m := m.setChan c _) hb₁ ?_ ?_ hc
    · simp only [Men.setChan_chan, if_true, Dmachan.record]
      omega
    · simp only [Men.setChan_chan, if_true, Dmachan.record, Men.setChan_dmaFifoLength]
      omega
  · cases hc
    exact hb

theorem menMoveHotTarget_ne_hot (mode : BitVec 6) : menMoveHotTarget mode ≠ .hot := by
  unfold menMoveHotTarget
  split_ifs <;> simp

/-- The buffers of a head and its dummy can be told apart by their index. -/
structure Indexed (m : Men) (h : HeadRef) : Prop where
  dummy : (m.buf (.dummy h)).index = -1
  sb : ∀ b, 0 ≤ (m.buf (.sb b)).index

theorem menMoveHot_booked {ts : Nat} {sb : Option BufRef}
    (hb : Booked N m.dmaFifoLength.toNat ch₀ h (m.chan c))
    (hact : (m.chan c).active = some h) (ht : Indexed m h) (hc : menMoveHot m c ts = .ok (m', sb)) :
    Booked N m.dmaFifoLength.toNat ch₀ h (m'.chan c) := by
  have hlt := fifo_lt_wrap m.dmaFifoLength
  have hfifo := hb.hot_fifo
  unfold menMoveHot at hc
  dsimp only at hc
  split_ifs at hc with hnone hhot
  · rw [hact] at hnone
    cases hnone
  · have hdec : Counter.dec ((m.chan c).count .hot) = (m.chan c).count .hot - 1 :=
      Counter.dec_eq hhot (by omega)
    obtain ⟨b, hfirst, hc⟩ := bind_ok.mp hc
    obtain ⟨m₁, h₁, hc⟩ := bind_ok.mp hc
    cases hc
    obtain ⟨rest, hlist⟩ := Dmachan.listFirst_ok.mp hfirst
    have hown := hb.own .hot b (by simp [hlist])
    unfold moveHotTake at h₁
    dsimp only at h₁
    split_ifs at h₁ with hidx
    · obtain ⟨ch, hch, h₁⟩ := bind_ok.mp h₁
      obtain ⟨_, rfl⟩ := Dmachan.listDel_ok.mp hch
      cases h₁
      obtain rfl : b = .dummy h := by
        rcases hown with ⟨sb, rfl⟩ | ⟨hd, _⟩
        · have := ht.sb sb
          omega
        · exact hd
      have hone : ((m.chan c).decCount .hot).count .hot + 1 = (m.chan c).count .hot := by
        rw [Dmachan.decCount_same, hdec]
        omega
      have hlist' : ∀ n b, b ∈ Shelves.takeOff (m.chan c).list (.dummy h) n →
          b ∈ (m.chan c).list n ∨ ∃ sb, b = .sb sb := fun n b hm => .inl (Shelves.mem_of_mem_takeOff hm)
      have hback := hb.back (.dummy h) (m.chan c).goodcnt (Counter.inc (m.chan c).lostCount)
        ((m.chan c).imgcnt + 1) hone (by simp [HwEvent.isDummyFrame]) hlist'
      simpa [Dmachan.decCount, Dmachan.record] using hback
    · obtain ⟨ch, hch, h₁⟩ := bind_ok.mp h₁
      obtain ⟨_, rfl⟩ := Dmachan.listMoveTail_ok.mp hch
      cases h₁
      obtain ⟨sb, rfl⟩ : ∃ sb, b = .sb sb := by
        rcases hown with hsb | ⟨rfl, _⟩
        · exact hsb
        · exact absurd ht.dummy hidx
      have hne := menMoveHotTarget_ne_hot (m.chan c).mode
      have hone : (((m.chan c).incCount (menMoveHotTarget (m.chan c).mode)).decCount .hot).count .hot + 1 =
          (m.chan c).count .hot := by
        rw [Dmachan.decCount_same, Dmachan.incCount_ne _ hne.symm, hdec]
        omega
      have hlist' : ∀ n b, b ∈ Shelves.moveLast (m.chan c).list (.sb sb)
          (menMoveHotTarget (m.chan c).mode) n → b ∈ (m.chan c).list n ∨ ∃ sb, b = .sb sb := by
        intro n b hm
        rcases Shelves.mem_moveLast hm with hm | ⟨_, rfl⟩
        · exact .inl hm
        · exact .inr ⟨sb, rfl⟩
      have hback := hb.back (.sb sb) ((m.chan c).goodcnt + 1) (m.chan c).lostCount
        ((m.chan c).imgcnt + 1) hone (by simp [HwEvent.isDummyFrame]) hlist'
      simpa [Dmachan.decCount, Dmachan.incCount, Dmachan.record, Men.setListname] using hback
  · cases hc
    have hkept : ∀ n b, b ∈ (m.chan c).list n → b ∈ (m.chan c).list n ∨ ∃ sb, b = .sb sb :=
      fun n b hm => .inl hm
    simpa using hb.refile (Counter.inc (m.chan c).lostCount) rfl hkept

theorem lockFirstGrabbed_booked {b : BufRef} {fifo : Nat} (hb : Booked N fifo ch₀ h (m.chan c))
    (hc : lockFirstGrabbed m c = .ok (m', b)) : Booked N fifo ch₀ h (m'.chan c) := by
  obtain ⟨b', _, hc⟩ := bind_ok.mp hc
  obtain ⟨ch, hch, hc⟩ := bind_ok.mp hc
  obtain ⟨_, rfl⟩ := Dmachan.listDel_ok.mp hch
  cases hc
  have hlist : ∀ n b', b' ∈ Shelves.takeOff (m.chan c).list b n →
      b' ∈ (m.chan c).list n ∨ ∃ sb, b' = .sb sb := fun n b' hm => .inl (Shelves.mem_of_mem_takeOff hm)
  simpa [Men.setListname] using hb.refile (m.chan c).lostCount rfl hlist

/-- Counters other than the one of the hot list do not matter. -/
theorem Booked.recount {fifo : Nat} {ch : Dmachan} {count : ListName → Nat} (hb : Booked N fifo ch₀ h ch)
    (hhot : count .hot = ch.count .hot) : Booked N fifo ch₀ h { ch with count := count } :=
  hb.refile ch.lostCount hhot fun _ _ hm => .inl hm

theorem menNextBlocked_booked {sb : Option BufRef} {fifo : Nat} (hb : Booked N fifo ch₀ h (m.chan c))
    (hc : menNextBlocked m c = .ok (m', sb)) : Booked N fifo ch₀ h (m'.chan c) := by
  unfold menNextBlocked at hc
  split_ifs at hc
  · cases hc
    exact hb
  · obtain ⟨⟨m₁, b⟩, h₁, hc⟩ := bind_ok.mp hc
    cases hc
    have hhot : (((m₁.chan c).decCount .grabbed).incCount .noList).count .hot = (m₁.chan c).count .hot := by
      rw [Dmachan.incCount_ne _ (by simp), Dmachan.decCount_ne _ (by simp)]
    simpa [Dmachan.incCount, Dmachan.decCount] using (lockFirstGrabbed_booked hb h₁).recount hhot

theorem moveToReady_booked {b : SbRef} {fifo : Nat} {count : ListName → Nat}
    (hb : Booked N fifo ch₀ h (m.chan c)) (hhot : count .hot = (m.chan c).count .hot) :
    Booked N fifo ch₀ h { m.chan c with
      list := Shelves.moveLast (m.chan c).list (.sb b) .ready, count := count } := by
  refine hb.refile (m.chan c).lostCount hhot fun n b' hm => ?_
  rcases Shelves.mem_moveLast hm with hm | ⟨_, rfl⟩
  · exact .inl hm
  · exact .inr ⟨b, rfl⟩

theorem releaseGrabbed_booked {n fifo : Nat} (hb : Booked N fifo ch₀ h (m.chan c))
    (hc : releaseGrabbed m c n = .ok m') : Booked N fifo ch₀ h (m'.chan c) := by
  induction n generalizing m with
  | zero =>
    cases hc
    exact hb
  | succ n ih =>
    obtain ⟨b, hfirst, hc⟩ := bind_ok.mp hc
    obtain ⟨ch, hch, hc⟩ := bind_ok.mp hc
    obtain ⟨_, rfl⟩ := Dmachan.listMoveTail_ok.mp hch
    obtain ⟨rest, hgrabbed⟩ := Dmachan.listFirst_ok.mp hfirst
    obtain ⟨sb, rfl⟩ := hb.sb_of_mem (n := .grabbed) (b := b) (by simp [hgrabbed]) (by simp)
    have hhot : (((m.chan c).incCount .ready).decCount .grabbed).count .hot = (m.chan c).count .hot := by
      rw [Dmachan.decCount_ne _ (by simp), Dmachan.incCount_ne _ (by simp)]
    refine ih ?_ hc
    simpa [Men.setListname, Dmachan.incCount, Dmachan.decCount] using moveToReady_booked (b := sb) hb hhot

theorem menLastBlocked_booked {sb : Option BufRef} {fifo : Nat} (hb : Booked N fifo ch₀ h (m.chan c))
    (hc : menLastBlocked m c = .ok (m', sb)) : Booked N fifo ch₀ h (m'.chan c) := by
  unfold menLastBlocked at hc
  split_ifs at hc
  · cases hc
    exact hb
  · obtain ⟨m₁, h₁, hc⟩ := bind_ok.mp hc
    obtain ⟨⟨m₂, b⟩, h₂, hc⟩ := bind_ok.mp hc
    cases hc
    have hb₂ := lockFirstGrabbed_booked (releaseGrabbed_booked hb h₁) h₂
    have hhot : (Dmachan.incCount { m₂.chan c with
        count := Function.update (m₂.chan c).count .grabbed 0 } .noList).count .hot =
          (m₂.chan c).count .hot := by
      rw [Dmachan.incCount_ne _ (by simp)]
      simp
    simpa [Dmachan.incCount] using hb₂.recount hhot

theorem queueIfLow_booked (hb : Booked N m.dmaFifoLength.toNat ch₀ h (m.chan c))
    (hact : (m.chan c).active = some h)
    (hfed : (m.chan c).mode = DMA_HANDSHAKEMODE → (m.chan c).count .ready = 0 → m.dmaFifoLength.toNat ≠ 0)
    (hc : queueIfLow m c = .ok m') : Booked N m.dmaFifoLength.toNat ch₀ h (m'.chan c) := by
  unfold queueIfLow at hc
  split_ifs at hc
  · exact menDmaQueueMax_booked hb hact hfed hc
  · cases hc
    exact hb

theorem menUnblockBuffer_booked {b : SbRef} (hb : Booked N m.dmaFifoLength.toNat ch₀ h (m.chan c))
    (hact : (m.chan c).active = some h)
    (hfed : (m.buf (.sb b)).listname = .ready ∨ (m.chan c).mode ≠ DMA_HANDSHAKEMODE ∨
      m.dmaFifoLength.toNat ≠ 0)
    (hc : menUnblockBuffer m c (some (.sb b)) = .ok m') :
    Booked N m.dmaFifoLength.toNat ch₀ h (m'.chan c) := by
  unfold menUnblockBuffer at hc
  dsimp only at hc
  split at hc
  · cases hc
    exact hb
  · cases hc
    exact hb
  · cases hc
    exact hb
  · rename_i hname
    have hfed' := hfed.resolve_left (by simp [hname])
    obtain ⟨ch, hch, hc⟩ := bind_ok.mp hc
    obtain ⟨_, rfl⟩ := Dmachan.listMoveTail_ok.mp hch
    have hhot : (((m.chan c).decCount .grabbed).incCount .ready).count .hot = (m.chan c).count .hot := by
      rw [Dmachan.incCount_ne _ (by simp), Dmachan.decCount_ne _ (by simp)]
    have hb₁ := moveToReady_booked (b := b) hb hhot
    refine queueIfLow_booked (m := (m.setListname (.sb b) .ready).setChan c _) ?_ ?_ ?_ hc
    · simpa [Men.setListname, Dmachan.incCount, Dmachan.decCount] using hb₁
    · simpa [Men.setListname, Dmachan.incCount, Dmachan.decCount] using hact
    · intro hmode _
      exact hfed'.resolve_left fun h => h (by
        simpa [Men.setListname, Dmachan.incCount, Dmachan.decCount] using hmode)
  · rename_i hname
    have hfed' := hfed.resolve_left (by simp [hname])
    have hhot : (((m.chan c).decCount .noList).incCount .ready).count .hot = (m.chan c).count .hot := by
      rw [Dmachan.incCount_ne _ (by simp), Dmachan.decCount_ne _ (by simp)]
    have hlist : ∀ n b', b' ∈ Shelves.putLast (m.chan c).list (.sb b) .ready n →
        b' ∈ (m.chan c).list n ∨ ∃ sb, b' = .sb sb := by
      intro n b' hm
      rcases Shelves.mem_putLast.mp hm with hm | ⟨_, rfl⟩
      · exact .inl hm
      · exact .inr ⟨b, rfl⟩
    have hb₁ := hb.refile (m.chan c).lostCount hhot hlist
    refine queueIfLow_booked (m := (m.setListname (.sb b) .ready).setChan c _) ?_ ?_ ?_ hc
    · simpa [Men.setListname, Dmachan.incCount, Dmachan.decCount, Dmachan.listAddTail] using hb₁
    · simpa [Men.setListname, Dmachan.incCount, Dmachan.decCount, Dmachan.listAddTail] using hact
    · intro hmode _
      exact hfed'.resolve_left fun h => h (by
        simpa [Men.setListname, Dmachan.incCount, Dmachan.decCount, Dmachan.listAddTail] using hmode)

end Functions

end MenableDriver
