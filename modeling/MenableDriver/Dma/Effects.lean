import Mathlib.Data.List.Rotate
import MenableDriver.Dma.Frame

/-!
# What each call does

One inversion lemma for each function that a call makes: the results it can have,
with the tests that lead there. The proofs about runs use these and do not unfold
the functions again.
-/

namespace MenableDriver

set_option autoImplicit false

open Transition

variable {m m' : Men} {c : ChanRef}

section Heads

@[simp] theorem setSlot_chan {h : HeadRef} {i : Nat} {slot : Option SbRef} :
    (m.setSlot h i slot).chan = m.chan := rfl

@[simp] theorem setSlot_link {h h' : HeadRef} {i : Nat} {slot : Option SbRef} :
    ((m.setSlot h i slot).head h').chan = (m.head h').chan := by
  unfold Men.setSlot
  by_cases hh : h' = h
  · subst h'
    simp
  · simp [hh]

@[simp] theorem setSlot_headsList {h : HeadRef} {i : Nat} {slot : Option SbRef} :
    (m.setSlot h i slot).headsList = m.headsList := rfl

@[simp] theorem setLink_chan {h : HeadRef} {l : Option ChanRef} : (m.setLink h l).chan = m.chan := rfl

@[simp] theorem setLink_link {h h' : HeadRef} {l : Option ChanRef} :
    ((m.setLink h l).head h').chan = if h' = h then l else (m.head h').chan := by
  unfold Men.setLink
  by_cases hh : h' = h
  · subst h'
    simp
  · simp [hh]

theorem setLink_bufs {h h' : HeadRef} {l : Option ChanRef} :
    ((m.setLink h l).head h').bufs = (m.head h').bufs := by
  unfold Men.setLink
  by_cases hh : h' = h
  · subst h'
    simp
  · simp [hh]

/-- The head a request for a new head brings into being. -/
theorem menCreateBufHead_cases {subbufs : Int} {mem : Option HeadRef} {r : Except Errno Nat}
    (hc : menCreateBufHead m subbufs mem = .ok (m', r)) :
    m' = m ∨ ∃ h hd, m.headInUse h = false ∧ hd.chan = none ∧
      hd.bufs = List.replicate subbufs.toNat none ∧
      m' = { (m.setHead h hd).modBuf (.dummy h) fun _ =>
          { index := -1, bufLength := 18446744073709551615 } with
        headsList := m.headsList ++ [h] } := by
  unfold menCreateBufHead at hc
  cases mem with
  | none =>
    split_ifs at hc <;> cases hc <;> exact .inl rfl
  | some h =>
    dsimp only at hc
    split_ifs at hc with h0 hu hlt
    · cases hc
      exact .inl rfl
    · cases hc
      exact .inr ⟨h, _, by simpa using hu, rfl, rfl, rfl⟩
    · cases hc
      exact .inl rfl

theorem menCreateUserbufCheck_free {r : IoRange} (hc : menCreateUserbufCheck m r = .ok none) :
    ∃ h, meGetBufHead m r.headnr = some h ∧ 0 ≤ r.subnr ∧ r.subnr < (m.head h).bufs.length ∧
      ((m.head h).bufs[r.subnr.toNat]?).join = none := by
  unfold menCreateUserbufCheck at hc
  cases hh : meGetBufHead m r.headnr with
  | none =>
    rw [hh] at hc
    dsimp only at hc
    split_ifs at hc <;> cases hc
  | some h =>
    rw [hh] at hc
    dsimp only at hc
    split_ifs at hc with h1 h2 h3 h4 h5 <;> cases hc
    exact ⟨h, rfl, by omega, by omega, by simpa using h5⟩

/-- A store either finds no head any more or fills the slot of the head it finds. -/
theorem menCreateUserbufStore_cases {r : IoRange} {b : SbRef} {ret : Ret}
    (hc : menCreateUserbufStore m r b = .ok (m', ret)) :
    (m' = m ∧ ret ≠ none ∧ meGetBufHead m r.headnr = none) ∨ ∃ h, ret = none ∧
      meGetBufHead m r.headnr = some h ∧ 0 ≤ r.subnr ∧ r.subnr < (m.head h).bufs.length ∧
      ((m.head h).chan = none ∧ m' = putUserbuf m r h b ∨
        ∃ c, (m.head h).chan = some c ∧ m' = addToFree (putUserbuf m r h b) c (.sb b)) := by
  unfold menCreateUserbufStore at hc
  split at hc
  · rename_i hh
    cases hc
    exact .inl ⟨rfl, by simp, hh⟩
  · rename_i h hh
    split_ifs at hc with hi
    have h0 : 0 ≤ r.subnr := by omega
    have hlt : r.subnr < (m.head h).bufs.length := by omega
    split at hc
    · rename_i hl
      cases hc
      exact .inr ⟨h, rfl, hh, h0, hlt, .inl ⟨hl, rfl⟩⟩
    · rename_i c hl
      cases hc
      exact .inr ⟨h, rfl, hh, h0, hlt, .inr ⟨c, hl, rfl⟩⟩

theorem menCreateUserbuf_cases {r : IoRange} {mem : Option SbRef} {ret : Ret}
    (hc : menCreateUserbuf m r mem = .ok (m', ret)) :
    m' = m ∨ ∃ h b, meGetBufHead m r.headnr = some h ∧ 0 ≤ r.subnr ∧
      r.subnr < (m.head h).bufs.length ∧ ((m.head h).bufs[r.subnr.toNat]?).join = none ∧
      m.sbInUse b = false ∧
      ((m.head h).chan = none ∧ m' = putUserbuf m r h b ∨
        ∃ c, (m.head h).chan = some c ∧ m' = addToFree (putUserbuf m r h b) c (.sb b)) := by
  unfold menCreateUserbuf at hc
  split_ifs at hc
  · cases hc
    exact .inl rfl
  · obtain ⟨e, he, hc⟩ := bind_ok.mp hc
    cases e with
    | some e =>
      cases hc
      exact .inl rfl
    | none =>
      cases mem with
      | none =>
        cases hc
        exact .inl rfl
      | some b =>
        dsimp only at hc
        split_ifs at hc with hb
        obtain ⟨h, hh, h0, hlt, hslot⟩ := menCreateUserbufCheck_free he
        rcases menCreateUserbufStore_cases hc with ⟨_, _, hgone⟩ | ⟨h', _, hh', _, _, hput⟩
        · cases hh.symm.trans hgone
        · obtain rfl : h = h' := Option.some.inj (hh.symm.trans hh')
          exact .inr ⟨h, b, hh, h0, hlt, hslot, by simpa using hb, hput⟩

theorem dropFromChannel_cases {b : BufRef} (hc : dropFromChannel m c b = .ok m') :
    ((m.buf b).listname = .noList ∧ m' = m.setChan c ((m.chan c).decCount .noList)) ∨
      (m.buf b).listname ≠ .noList ∧ Shelves.On (m.chan c).list b ∧
        m' = m.setChan c ({ m.chan c with
          list := Shelves.takeOff (m.chan c).list b }.decCount (m.buf b).listname) := by
  unfold dropFromChannel at hc
  dsimp only at hc
  split_ifs at hc with hn
  · obtain ⟨ch, hch, hc⟩ := bind_ok.mp hc
    obtain ⟨hon, rfl⟩ := Dmachan.listDel_ok.mp hch
    cases hc
    exact .inr ⟨hn, hon, rfl⟩
  · rw [not_not] at hn
    rw [hn] at hc
    cases hc
    exact .inl ⟨hn, rfl⟩

/-- What a successful `men_free_userbuf` took out. -/
theorem menFreeUserbuf_cases {h : HeadRef} {index : Int} {ret : Ret}
    (hc : menFreeUserbuf m h index = .ok (m', ret)) :
    (m' = m ∧ ret ≠ none) ∨ ∃ b, ret = none ∧ 0 ≤ index ∧ index < (m.head h).bufs.length ∧
      (m.head h).bufs[index.toNat]? = some (some b) ∧
      ((m.head h).chan = none ∧ m' = m.setSlot h index.toNat none ∨
        ∃ c m₁, (m.head h).chan = some c ∧
          ((m.chan c).state = .stopped ∨ (m.buf (.sb b)).listname ≠ .hot) ∧
          dropFromChannel m c (.sb b) = .ok m₁ ∧ m' = m₁.setSlot h index.toNat none) := by
  unfold menFreeUserbuf at hc
  split_ifs at hc with hi
  · cases hc
    exact .inl ⟨rfl, by simp⟩
  · split at hc
    · cases hc
    · cases hc
      exact .inl ⟨rfl, by simp⟩
    · rename_i b hb
      have hlt : index.toNat < (m.head h).bufs.length := (List.getElem?_eq_some_iff.mp hb).1
      split at hc
      · rename_i hl
        cases hc
        exact .inr ⟨b, rfl, by omega, by omega, hb, .inl ⟨hl, rfl⟩⟩
      · rename_i c hl
        split_ifs at hc with hs
        · cases hc
          exact .inl ⟨rfl, by simp⟩
        · obtain ⟨m₁, h₁, hc⟩ := bind_ok.mp hc
          cases hc
          refine .inr ⟨b, rfl, by omega, by omega, hb, .inr ⟨c, m₁, hl, ?_, h₁, rfl⟩⟩
          by_cases hst : (m.chan c).state = .stopped
          · exact .inl hst
          · exact .inr fun hn => hs ⟨hst, hn⟩

theorem menIoctlDelVirtUserBuffer_cases {headnr : Nat} {index : Int} {ret : Ret}
    (hc : menIoctlDelVirtUserBuffer m headnr index = .ok (m', ret)) :
    m' = m ∨ ∃ h m₁, meGetBufHead m headnr = some h ∧ menFreeUserbuf m h index = .ok (m₁, none) ∧
      m' = { m₁ with doomed := (meGetSubBufByHead m h index).toList ++ m₁.doomed } := by
  unfold menIoctlDelVirtUserBuffer at hc
  split at hc
  · cases hc
    exact .inl rfl
  · rename_i h hh
    obtain ⟨⟨m₁, ret₁⟩, h₁, hc⟩ := bind_ok.mp hc
    cases ret₁ with
    | some e =>
      cases hc
      rcases menFreeUserbuf_cases h₁ with ⟨rfl, _⟩ | ⟨b, hne, _⟩
      · exact .inl rfl
      · cases hne
    | none =>
      cases hc
      exact .inr ⟨h, m₁, hh, h₁, rfl⟩

theorem menReleaseBufHead_cases {h : HeadRef} {ret : Ret} (hc : menReleaseBufHead m h = (m', ret)) :
    (m' = m ∧ ret ≠ none) ∨ ret = none ∧
      ((m.head h).chan = none ∧ m' = { m with headsList := m.headsList.erase h } ∨
        ∃ c, (m.head h).chan = some c ∧ (m.chan c).state ≠ .started ∧
          m' = { m.setChan c { m.chan c with active := none } with
            headsList := m.headsList.erase h }) := by
  unfold menReleaseBufHead at hc
  split at hc
  · rename_i hl
    cases hc
    exact .inr ⟨rfl, .inl ⟨hl, rfl⟩⟩
  · rename_i c hl
    split_ifs at hc with hs
    · cases hc
      exact .inl ⟨rfl, by simp⟩
    · cases hc
      exact .inr ⟨rfl, .inr ⟨c, hl, hs, rfl⟩⟩

theorem menReleaseBufHead_headsList {h : HeadRef} (hc : menReleaseBufHead m h = (m', none)) :
    m'.headsList = m.headsList.erase h := by
  rcases menReleaseBufHead_cases hc with ⟨_, hne⟩ | ⟨_, ⟨_, rfl⟩ | ⟨c, _, _, rfl⟩⟩
  · exact absurd rfl hne
  · rfl
  · rfl

/-- The release of all heads, one after the other. -/
theorem menCleanupMem_induct {P : List HeadRef → Men → Prop} {hs : List HeadRef}
    (hstep : ∀ {m h hs m₁}, menReleaseBufHead m h = (m₁, none) → P (h :: hs) m →
      P hs { m₁ with doomedHeads := h :: m₁.doomedHeads })
    (hP : P hs m) (hc : menCleanupMem m hs = .ok m') : P [] m' := by
  induction hs generalizing m with
  | nil =>
    cases hc
    exact hP
  | cons h hs ih =>
    unfold menCleanupMem at hc
    split at hc
    · cases hc
    · rename_i m₁ h₁
      exact ih (hstep h₁ hP) hc

/-- What the release of a head of the board keeps, the release of all of them keeps. -/
theorem menCleanupMem_keeps {P : Men → Prop}
    (hstep : ∀ {m h m₁}, h ∈ m.headsList → menReleaseBufHead m h = (m₁, none) → P m →
      P { m₁ with doomedHeads := h :: m₁.doomedHeads })
    (hn : m.headsList.Nodup) (hP : P m) (hc : menCleanupMem m m.headsList = .ok m') : P m' := by
  refine (menCleanupMem_induct (P := fun hs m => hs.Nodup ∧ (∀ h ∈ hs, h ∈ m.headsList) ∧ P m)
    (fun {m h hs m₁} h₁ hinv => ?_) ⟨hn, fun _ hh => hh, hP⟩ hc).2.2
  obtain ⟨hnodup, hmem, hP⟩ := hinv
  obtain ⟨hnot, hnodup⟩ := List.nodup_cons.mp hnodup
  refine ⟨hnodup, fun h' hh' => ?_, hstep (hmem h List.mem_cons_self) h₁ hP⟩
  have hne : h' ≠ h := by
    rintro rfl
    exact hnot hh'
  change h' ∈ m₁.headsList
  rw [menReleaseBufHead_headsList h₁]
  exact (List.mem_erase_of_ne hne).mpr (hmem h' (List.mem_cons_of_mem h hh'))

theorem menIoctlFreeVirtBuffer_cases {headnr : Nat} {ret : Ret}
    (hc : menIoctlFreeVirtBuffer m headnr = (m', ret)) :
    m' = m ∨ ∃ h m₁, meGetBufHead m headnr = some h ∧ menReleaseBufHead m h = (m₁, none) ∧
      m' = { m₁ with doomedHeads := h :: m₁.doomedHeads } := by
  unfold menIoctlFreeVirtBuffer at hc
  split at hc
  · cases hc
    exact .inl rfl
  · rename_i h hh
    split at hc
    · rename_i m₁ e he
      cases hc
      rcases menReleaseBufHead_cases he with ⟨rfl, _⟩ | ⟨hne, _⟩
      · exact .inl rfl
      · cases hne
    · rename_i m₁ he
      cases hc
      exact .inr ⟨h, m₁, hh, he, rfl⟩

theorem menDestroySb_ok {b : SbRef} : menDestroySb m b = .ok m' ↔
    b ∈ m.doomed ∧ m' = { m with doomed := m.doomed.erase b } := by
  unfold menDestroySb
  split_ifs with hb <;> simp [hb, eq_comm]

theorem menFreeBufHead_ok {h : HeadRef} : menFreeBufHead m h = .ok m' ↔
    h ∈ m.doomedHeads ∧ m' = { m with doomedHeads := m.doomedHeads.erase h } := by
  unfold menFreeBufHead
  split_ifs with hh <;> simp [hh, eq_comm]

theorem meGetBufHead_mem {num : Nat} {h : HeadRef} (hh : meGetBufHead m num = some h) :
    h ∈ m.headsList := List.mem_of_find?_eq_some hh

theorem meGetSubBufByHead_some {h : HeadRef} {i : Int} {b : SbRef} :
    meGetSubBufByHead m h i = some b ↔ 0 ≤ i ∧ (m.head h).bufs[i.toNat]? = some (some b) := by
  unfold meGetSubBufByHead
  split_ifs with hi
  · simp only [false_iff]
    omega
  · simp only [Option.join_eq_some_iff]
    constructor
    · intro hb
      exact ⟨by omega, hb⟩
    · exact fun hb => hb.2

end Heads

section Channels

theorem menDmaCleanHalt_ok :
    menDmaCleanHalt m c = .ok m' ↔ (m.chan c).state = .stopping ∧ (m.chan c).timing = false ∧
      m' = m.setChan c { (m.chan c).record .stopdma with
        timer := false, state := .stopped, transferTodo := 0 } := by
  unfold menDmaCleanHalt stopdma Dmachan.hrtimerCancel
  by_cases hs : (m.chan c).state = .stopping
  · cases ht : (m.chan c).timing
    · simp [hs, ht, Dmachan.record, Men.setChan, bind, Except.bind, eq_comm]
    · simp [hs, ht, Dmachan.record, bind, Except.bind]
  · simp [hs]

/-- The loop of `men_clean_bh` moves buffers like the list functions do. -/
theorem cleanBhLoop_frame (slots : List (Option SbRef)) : MoveFrame c m (cleanBhLoop m c slots) := by
  induction slots generalizing m with
  | nil => exact .refl c m
  | cons slot slots ih =>
    cases slot with
    | none => exact ih
    | some b =>
      have hadd : MoveFrame c m (cleanBhAdd m c (.sb b)) := by
        unfold cleanBhAdd
        exact (MoveFrame.setChan (.lists ..)).trans (.modBuf rfl)
      exact hadd.trans ih

theorem startdma_frame {hw : StartHw} {ret : Ret} (hc : startdma m c hw = .ok (m', ret)) :
    MoveFrame c (abortdma m c) m' := by
  unfold startdma at hc
  cases hw with
  | refused =>
    cases hc
    exact .refl c _
  | running | dead | timedOut =>
    obtain ⟨m₁, h₁, hc⟩ := bind_ok.mp hc
    cases hc
    exact menDmaQueueMax_frame h₁

/-- The channel and its head before the engine is started. -/
def startPrepared (m : Men) (c : ChanRef) (h : HeadRef) (startbuf : Nat) : Men :=
  menCleanBh (menStartDmaTake m c h) c h startbuf

theorem menStartDma_cases {h : HeadRef} {startbuf : Nat} {hw : StartHw} {current : Tgid} {ret : Ret}
    (hc : menStartDma m c h startbuf hw current = .ok (m', ret)) :
    (menStartDmaBusy m c h = true ∧ m' = m ∧ ret = some .EBUSY) ∨
      menStartDmaBusy m c h = false ∧
        ((((startPrepared m c h startbuf).chan c).count .ready = 0 ∧
            ((startPrepared m c h startbuf).chan c).mode ≠ DMA_SELECTIVEMODE ∧
            m' = (startPrepared m c h startbuf).setState c .stopping ∧ ret = some .ENODEV) ∨
          (¬ (((startPrepared m c h startbuf).chan c).count .ready = 0 ∧
              ((startPrepared m c h startbuf).chan c).mode ≠ DMA_SELECTIVEMODE) ∧
            ∃ m₁ r, startdma (startPrepared m c h startbuf) c hw = .ok (m₁, r) ∧
              ((∃ e, r = some e ∧ m' = m₁.setState c .stopping ∧ ret = some e) ∨
                (r = none ∧ m' = menStartDmaDone m₁ c current ∧ ret = none)))) := by
  unfold menStartDma at hc
  dsimp only at hc
  split_ifs at hc with hb hr
  · cases hc
    exact .inl ⟨hb, rfl, rfl⟩
  · cases hc
    exact .inr ⟨by simpa using hb, .inl ⟨hr.1, hr.2, rfl, rfl⟩⟩
  · obtain ⟨⟨m₁, r⟩, h₁, hc⟩ := bind_ok.mp hc
    refine .inr ⟨by simpa using hb, .inr ⟨hr, m₁, r, h₁, ?_⟩⟩
    cases r with
    | some e =>
      cases hc
      exact .inl ⟨e, rfl, rfl, rfl⟩
    | none =>
      cases hc
      exact .inr ⟨rfl, rfl, rfl⟩

theorem fgStartTail_cases {w : StartWait} {hw : StartHw} {current : Tgid} {ret : Ret}
    (hc : fgStartTail m w hw current = .ok (m', ret)) :
    (ret = none ∧ menStartDma (fgStartSetup m w.fgr w.chan) w.chan w.head w.fgr.startBuf.toNat hw
        current = .ok (m', none)) ∨
      ∃ e m₁, ret = some e ∧ menStartDma (fgStartSetup m w.fgr w.chan) w.chan w.head
        w.fgr.startBuf.toNat hw current = .ok (m₁, some e) ∧ menDmaCleanHalt m₁ w.chan = .ok m' := by
  unfold fgStartTail at hc
  obtain ⟨⟨m₁, r⟩, h₁, hc⟩ := bind_ok.mp hc
  cases r with
  | none =>
    cases hc
    exact .inl ⟨rfl, h₁⟩
  | some e =>
    obtain ⟨m₂, h₂, hc⟩ := bind_ok.mp hc
    cases hc
    exact .inr ⟨e, m₁, rfl, h₁, h₂⟩

@[simp] theorem unlinkActive_chan {h : HeadRef} : (unlinkActive m c h).chan = m.chan := by
  unfold unlinkActive
  split
  · rfl
  · split_ifs <;> rfl

@[simp] theorem unlinkActive_fifo {h : HeadRef} : (unlinkActive m c h).dmaFifoLength = m.dmaFifoLength := by
  unfold unlinkActive
  split
  · rfl
  · split_ifs <;> rfl

/-- The slots from any buffer on are all slots. -/
theorem cleanBhSlots_perm (hd : Dmahead) (startbuf : Nat) : (cleanBhSlots hd startbuf).Perm hd.bufs := by
  have hrot : cleanBhSlots hd startbuf = hd.bufs.rotate startbuf := by
    refine List.ext_getElem (by simp [cleanBhSlots]) fun i h₁ h₂ => ?_
    have hpos : 0 < hd.bufs.length := by
      simp [cleanBhSlots] at h₁
      omega
    have hlt : (i + startbuf) % hd.bufs.length < hd.bufs.length := Nat.mod_lt _ hpos
    rw [List.getElem_rotate]
    simp [cleanBhSlots, Nat.add_comm startbuf i, List.getElem?_eq_getElem hlt]
  rw [hrot]
  exact List.rotate_perm _ _

/-- The channel between the two: the lists are empty, the loop of `men_clean_bh` is still
to come. -/
def Dmachan.cleared (ch : Dmachan) (h : HeadRef) : Dmachan :=
  { ch with active := some h, state := .starting }.clearLists

def startCleared (m : Men) (c : ChanRef) (h : HeadRef) : Men :=
  (unlinkActive m c h).setChan c ((m.chan c).cleared h)

theorem startPrepared_eq {h : HeadRef} {startbuf : Nat} : startPrepared m c h startbuf =
    (cleanBhLoop (startCleared m c h) c (cleanBhSlots ((startCleared m c h).head h) startbuf)).setLink h
      (some c) := by
  unfold startPrepared menCleanBh menStartDmaTake startCleared
  simp [Dmachan.cleared]

theorem startPrepared_other {h : HeadRef} {startbuf : Nat} {c' : ChanRef} (hc : c' ≠ c) :
    (startPrepared m c h startbuf).chan c' = m.chan c' := by
  rw [startPrepared_eq, setLink_chan, (cleanBhLoop_frame _).other c' hc]
  simp [startCleared, hc]

theorem startPrepared_chan {h : HeadRef} {startbuf : Nat} :
    ((m.chan c).cleared h).Moved ((startPrepared m c h startbuf).chan c) := by
  have hf := (cleanBhLoop_frame (m := startCleared m c h) (c := c)
    (cleanBhSlots ((startCleared m c h).head h) startbuf)).self
  rw [startPrepared_eq, setLink_chan]
  simpa [startCleared] using hf

/-- The entries a start adds: what it queues, it queues to a channel that is starting. -/
def Dmachan.StartLog (ch ch' : Dmachan) : Prop :=
  ∀ st b, .queued st b ∈ ch'.log → .queued st b ∈ ch.log ∨ st = .starting

/-- What the end of a start leaves of the control of its channel. -/
structure Dmachan.StartKept (ch ch' : Dmachan) : Prop where
  dwork : ch'.dwork = false
  working : ch'.working = ch.working
  timing : ch'.timing = ch.timing
  waitList : ch'.waitList = ch.waitList
  number : ch'.number = ch.number
  fpga : ch'.fpga = ch.fpga
  log : ch.StartLog ch'

def startTodo (fgr : FgCtrl) : Int := if fgr.transferTodo = -1 then llongMax else fgr.transferTodo

structure Dmachan.StartDone (w : StartWait) (current : Tgid) (ch ch' : Dmachan) : Prop
    extends ch.StartKept ch' where
  state : ch'.state = .started
  active : ch'.active = some w.head
  starter : ch'.starter = some current
  todo : ch'.transferTodo = startTodo w.fgr
  good : ch'.goodcnt = 0

structure Dmachan.StartFailed (w : StartWait) (ch ch' : Dmachan) : Prop
    extends ch.StartKept ch' where
  state : ch'.state = .stopped
  starter : ch'.starter = ch.starter
  todo : ch'.transferTodo = 0
  active : ch'.active = ch.active ∨ ch'.active = some w.head

theorem Dmachan.LogGrows.startLog {ch ch' : Dmachan} (hst : ch.state = .starting)
    (h : ch.LogGrows ch') : ch.StartLog ch' := by
  obtain ⟨es, hes, hall⟩ := h
  intro st b hb
  rw [hes, List.mem_append] at hb
  rcases hb with hb | hb
  · exact .inr ((hall _ hb).trans hst)
  · exact .inl hb

theorem Dmachan.StartLog.trans {ch ch' ch'' : Dmachan} (h : ch.StartLog ch') (h' : ch'.StartLog ch'') :
    ch.StartLog ch'' := by
  intro st b hb
  rcases h' st b hb with hb | hst
  · exact h st b hb
  · exact .inr hst

/-- The channel while it is starting: cleared, its lists filled, buffers queued. -/
structure Dmachan.Primed (h : HeadRef) (ch ch' : Dmachan) : Prop where
  control : ∃ list count log, ch' = { ch.cleared h with list := list, count := count, log := log }
  log : ch.StartLog ch'

theorem startPrepared_primed {h : HeadRef} {startbuf : Nat} :
    (m.chan c).Primed h ((startPrepared m c h startbuf).chan c) where
  control := startPrepared_chan.control
  log st b hb := startPrepared_chan.log.startLog rfl st b hb

theorem startdma_primed {h : HeadRef} {startbuf : Nat} {hw : StartHw} {ret : Ret}
    (hc : startdma (startPrepared m c h startbuf) c hw = .ok (m', ret)) :
    (m.chan c).Primed h (m'.chan c) := by
  have hm := (startdma_frame hc).self
  have hprimed : (m.chan c).Primed h ((startPrepared m c h startbuf).chan c) := startPrepared_primed
  obtain ⟨⟨list, count, log, hctl⟩, hlog⟩ := hprimed
  simp only [abortdma, Men.setChan_chan, if_true] at hm
  obtain ⟨⟨list', count', log', hctl'⟩, hlog'⟩ := hm
  have hst : (((startPrepared m c h startbuf).chan c).record .abortdma).state = .starting := by
    rw [hctl]
    rfl
  constructor
  · rw [hctl', hctl]
    exact ⟨_, _, _, rfl⟩
  · intro st b hb
    rcases hlog'.startLog hst st b hb with hb | hst
    · rcases List.mem_cons.mp hb with hb | hb
      · cases hb
      · exact hlog st b hb
    · exact .inr hst

theorem startdma_other {h : HeadRef} {startbuf : Nat} {hw : StartHw} {ret : Ret} {c' : ChanRef}
    (hc : startdma (startPrepared m c h startbuf) c hw = .ok (m', ret)) (hne : c' ≠ c) :
    m'.chan c' = m.chan c' := by
  rw [(startdma_frame hc).other c' hne, abortdma, Men.setChan_chan, if_neg hne,
    startPrepared_other hne]

theorem menStartDma_other {h : HeadRef} {startbuf : Nat} {hw : StartHw} {current : Tgid} {ret : Ret}
    {c' : ChanRef} (hc : menStartDma m c h startbuf hw current = .ok (m', ret)) (hne : c' ≠ c) :
    m'.chan c' = m.chan c' := by
  rcases menStartDma_cases hc with ⟨_, rfl, _⟩
    | ⟨_, ⟨_, _, rfl, _⟩ | ⟨_, m₁, r, h₁, ⟨e, _, rfl, _⟩ | ⟨_, rfl, _⟩⟩⟩
  · rfl
  · simp [Men.setState, hne, startPrepared_other hne]
  · simp [Men.setState, hne, startdma_other h₁ hne]
  · simp [menStartDmaDone, hne, startdma_other h₁ hne]

/-- The two ways to come out of `men_start_dma` with a channel that was touched. -/
theorem menStartDma_chan {h : HeadRef} {startbuf : Nat} {hw : StartHw} {current : Tgid} {ret : Ret}
    (hc : menStartDma m c h startbuf hw current = .ok (m', ret)) :
    (ret = some .EBUSY ∧ menStartDmaBusy m c h = true ∧ m' = m) ∨
      (menStartDmaBusy m c h = false ∧ ∃ ch, (m.chan c).Primed h ch ∧
        ((ret ≠ none ∧ m'.chan c = { ch with state := .stopping }) ∨
          (ret = none ∧ m'.chan c = { ch with
            timer := ch.timer || decide (ch.timeout ≠ 0)
            state := .started
            starter := some current }))) := by
  rcases menStartDma_cases hc with ⟨hb, rfl, rfl⟩
    | ⟨hb, ⟨_, _, rfl, rfl⟩ | ⟨_, m₁, r, h₁, ⟨e, _, rfl, rfl⟩ | ⟨_, rfl, rfl⟩⟩⟩
  · exact .inl ⟨rfl, hb, rfl⟩
  · refine .inr ⟨hb, (startPrepared m c h startbuf).chan c, startPrepared_primed, .inl ⟨by simp, ?_⟩⟩
    simp [Men.setState]
  · refine .inr ⟨hb, m₁.chan c, startdma_primed h₁, .inl ⟨by simp, ?_⟩⟩
    simp [Men.setState]
  · refine .inr ⟨hb, m₁.chan c, startdma_primed h₁, .inr ⟨rfl, ?_⟩⟩
    simp [menStartDmaDone]

theorem fgStartTail_other {w : StartWait} {hw : StartHw} {current : Tgid} {ret : Ret} {c' : ChanRef}
    (hc : fgStartTail m w hw current = .ok (m', ret)) (hne : c' ≠ w.chan) :
    m'.chan c' = m.chan c' := by
  rcases fgStartTail_cases hc with ⟨_, h₁⟩ | ⟨e, m₁, _, h₁, h₂⟩
  · rw [menStartDma_other h₁ hne]
    simp [fgStartSetup, hne]
  · obtain ⟨_, _, rfl⟩ := menDmaCleanHalt_ok.mp h₂
    rw [Men.setChan_chan, if_neg hne, menStartDma_other h₁ hne]
    simp [fgStartSetup, hne]

theorem fgStartTail_done {w : StartWait} {hw : StartHw} {current : Tgid}
    (hc : fgStartTail m w hw current = .ok (m', none)) :
    (m.chan w.chan).StartDone w current (m'.chan w.chan) := by
  rcases fgStartTail_cases hc with ⟨_, h₁⟩ | ⟨e, m₁, he, _⟩
  · rcases menStartDma_chan h₁ with ⟨he, _⟩ | ⟨_, ch, ⟨⟨_, _, _, rfl⟩, hlog⟩, ⟨hne, _⟩ | ⟨_, heq⟩⟩
    · cases he
    · exact absurd rfl hne
    · rw [heq]
      simp only [fgStartSetup, Men.setChan_chan, if_true] at hlog ⊢
      exact ⟨⟨rfl, rfl, rfl, rfl, rfl, rfl, hlog⟩, rfl, rfl, rfl, rfl, rfl⟩
  · cases he

theorem fgStartTail_failed {w : StartWait} {hw : StartHw} {current : Tgid} {e : Errno}
    (hc : fgStartTail m w hw current = .ok (m', some e)) :
    (m.chan w.chan).StartFailed w (m'.chan w.chan) := by
  rcases fgStartTail_cases hc with ⟨he, _⟩ | ⟨e', m₁, _, h₁, h₂⟩
  · cases he
  · obtain ⟨_, _, rfl⟩ := menDmaCleanHalt_ok.mp h₂
    rw [Men.setChan_chan, if_pos rfl]
    rcases menStartDma_chan h₁ with ⟨_, _, rfl⟩ | ⟨_, ch, ⟨⟨_, _, _, rfl⟩, hlog⟩, ⟨_, heq⟩ | ⟨hne, _⟩⟩
    · simp only [fgStartSetup, Men.setChan_chan, if_true]
      refine ⟨⟨rfl, rfl, rfl, rfl, rfl, rfl, fun st b hb => ?_⟩, rfl, rfl, rfl, .inl rfl⟩
      rcases List.mem_cons.mp hb with hb | hb
      · cases hb
      · exact .inl hb
    · rw [heq]
      simp only [fgStartSetup, Men.setChan_chan, if_true] at hlog ⊢
      refine ⟨⟨rfl, rfl, rfl, rfl, rfl, rfl, fun st b hb => ?_⟩, rfl, rfl, rfl, .inr rfl⟩
      rcases List.mem_cons.mp hb with hb | hb
      · cases hb
      · exact hlog st b hb
    · cases hne

/-- A channel that is left alone or stopped by `men_stop_dma_locked`. -/
inductive Dmachan.MaybeStopped (ch : Dmachan) : Dmachan → Prop where
  | same : ch.MaybeStopped ch
  | stopped : ch.state = .started → 0 < ch.transferTodo →
      ch.MaybeStopped { ch with transferTodo := 0, state := .stopping, dwork := true }

theorem menStopDma_cases (m : Men) (c : ChanRef) :
    ((m.chan c).state = .started → (m.chan c).transferTodo ≤ 0) ∧ menStopDma m c = m ∨
      (m.chan c).state = .started ∧ 0 < (m.chan c).transferTodo ∧
        menStopDma m c = m.setChan c { m.chan c with
          transferTodo := 0, state := .stopping, dwork := true } := by
  unfold menStopDma menStopDmaLocked
  by_cases hs : (m.chan c).state = .started
  · by_cases ht : 0 < (m.chan c).transferTodo
    · exact .inr ⟨hs, ht, by simp [hs, ht]⟩
    · exact .inl ⟨fun _ => by omega, by simp [hs, ht]⟩
  · exact .inl ⟨fun h => absurd h hs, by simp [hs]⟩

theorem menStopDma_chan (m : Men) (c c' : ChanRef) :
    (m.chan c').MaybeStopped ((menStopDma m c).chan c') := by
  rcases menStopDma_cases m c with ⟨_, he⟩ | ⟨hs, ht, he⟩
  · rw [he]
    exact .same
  · rw [he, Men.setChan_chan]
    split_ifs with hc
    · subst hc
      exact .stopped hs ht
    · exact .same

theorem Dmachan.MaybeStopped.trans {ch ch' ch'' : Dmachan} (h : ch.MaybeStopped ch')
    (h' : ch'.MaybeStopped ch'') : ch.MaybeStopped ch'' := by
  cases h with
  | same => exact h'
  | stopped hs ht =>
    cases h' with
    | same => exact .stopped hs ht
    | stopped hs' _ => cases hs'

theorem cleanupFlagged_chan (dmas : Nat → Nat → Bool) (l : List (Nat × Nat × ChanRef)) (c : ChanRef) :
    (m.chan c).MaybeStopped ((cleanupFlagged m dmas l).chan c) := by
  induction l generalizing m with
  | nil => exact .same
  | cons x l ih =>
    obtain ⟨j, i, c'⟩ := x
    refine Dmachan.MaybeStopped.trans ?_ ih
    split_ifs
    · exact menStopDma_chan m c' c
    · exact .same

theorem menStopDma_board (m : Men) (c : ChanRef) :
    ∃ chan, menStopDma m c = { m with chan := chan } := by
  rcases menStopDma_cases m c with ⟨_, he⟩ | ⟨_, _, he⟩
  · exact ⟨m.chan, he⟩
  · exact ⟨_, he⟩

theorem cleanupFlagged_board (m : Men) (dmas : Nat → Nat → Bool) (l : List (Nat × Nat × ChanRef)) :
    ∃ chan, cleanupFlagged m dmas l = { m with chan := chan } := by
  induction l generalizing m with
  | nil => exact ⟨m.chan, rfl⟩
  | cons x l ih =>
    obtain ⟨j, i, c⟩ := x
    obtain ⟨chan, he⟩ := ih (if dmas j i then menStopDma m c else m)
    obtain ⟨chan', he'⟩ := menStopDma_board m c
    unfold cleanupFlagged
    split_ifs at he ⊢
    · rw [he, he']
      exact ⟨_, rfl⟩
    · exact ⟨_, he⟩

theorem menCleanupThreadgroup_effect (m : Men) (tg : ThreadGroup) :
    (∃ chan groups, menCleanupThreadgroup m tg = { m with chan := chan, groups := groups }) ∧
      ∀ c, (m.chan c).MaybeStopped ((menCleanupThreadgroup m tg).chan c) := by
  unfold menCleanupThreadgroup
  obtain ⟨chan, he⟩ := cleanupFlagged_board m tg.dmas (fpgaChannels m)
  have hs := fun c => cleanupFlagged_chan (m := m) tg.dmas (fpgaChannels m) c
  rw [he] at hs ⊢
  exact ⟨⟨_, _, rfl⟩, hs⟩

theorem menableReleaseGroup_effect (m : Men) (current : Tgid) :
    (∃ chan groups, menableReleaseGroup m current = { m with chan := chan, groups := groups }) ∧
      ∀ c, (m.chan c).MaybeStopped ((menableReleaseGroup m current).chan c) := by
  unfold menableReleaseGroup
  split
  · exact ⟨⟨_, _, rfl⟩, fun _ => .same⟩
  · dsimp only
    split_ifs
    · obtain ⟨⟨chan, groups, hb⟩, hs⟩ := menCleanupThreadgroup_effect
        { m with groups := modThreadgroup current (fun _ => _) m.groups } _
      exact ⟨⟨chan, groups, hb⟩, hs⟩
    · exact ⟨⟨_, _, rfl⟩, fun _ => .same⟩

theorem menCleanupChannels_effect (m : Men) :
    (∃ chan, menCleanupChannels m = { m with chan := chan }) ∧
      ∀ c, (m.chan c).MaybeStopped ((menCleanupChannels m).chan c) :=
  ⟨cleanupFlagged_board m _ _, cleanupFlagged_chan _ _⟩

/-- Of the board, a close changes groups and handles only. -/
theorem menableRelease_effect {owner current : Tgid} {last : Bool}
    (hc : menableRelease m owner current = .ok (m', last)) :
    (∃ chan groups use files, m' = { m with chan := chan, groups := groups, use := use, files := files }) ∧
      ∀ c, (m.chan c).MaybeStopped (m'.chan c) := by
  unfold menableRelease at hc
  obtain ⟨⟨chan, groups, hb⟩, hs⟩ :=
    menableReleaseGroup_effect { m with files := m.files.erase owner } current
  generalize menableReleaseGroup { m with files := m.files.erase owner } current = m₁ at hc hb hs
  dsimp only at hc
  subst hb
  split_ifs at hc
  · cases hc
    obtain ⟨⟨chan', he⟩, hs'⟩ := menCleanupChannels_effect
      { m with chan := chan, groups := groups, use := m.use - 1, files := m.files.erase owner }
    exact ⟨⟨chan', _, _, _, he⟩, fun c => (hs c).trans (hs' c)⟩
  · cases hc
    exact ⟨⟨_, _, _, _, rfl⟩, hs⟩

theorem fgStartCancel_ok {took : Bool} :
    fgStartCancel m c = .ok (m', took) ↔ (m.chan c).working = false ∧
      m' = m.setChan c { m.chan c with dwork := false } ∧ took = (m.chan c).dwork := by
  unfold fgStartCancel
  cases h : (m.chan c).working <;> simp [h, eq_comm]

theorem fgStartResume_cases {w : StartWait} {took : Bool} {r : StartResume}
    (hc : fgStartResume m w took = .ok r) :
    (meGetBufHead m w.fgr.head = none ∧ r = .gone) ∨ meGetBufHead m w.fgr.head ≠ none ∧
      ((took = true ∧ (m.chan w.chan).state = .stopping ∧
          ∃ m', menDmaCleanHalt m w.chan = .ok m' ∧ r = .halted m') ∨
        ¬ (took = true ∧ (m.chan w.chan).state = .stopping) ∧ r = .go) := by
  unfold fgStartResume at hc
  cases hh : meGetBufHead m w.fgr.head with
  | none =>
    rw [hh] at hc
    cases hc
    exact .inl ⟨rfl, rfl⟩
  | some h =>
    simp only [hh] at hc
    refine .inr ⟨by simp, ?_⟩
    split_ifs at hc with ht
    · obtain ⟨m₁, h₁, hc⟩ := bind_ok.mp hc
      cases hc
      exact .inl ⟨ht.1, ht.2, m₁, h₁, rfl⟩
    · cases hc
      exact .inr ⟨ht, rfl⟩

theorem timerExpire_ok : timerExpire m c = .ok m' ↔ (m.chan c).timer = true ∧
    (m.chan c).timing = false ∧ m' = m.setChan c { m.chan c with timer := false, timing := true } := by
  unfold timerExpire
  cases h : (m.chan c).timer <;> cases h' : (m.chan c).timing <;> simp [h, h', eq_comm]

theorem timerRun_ok : timerRun m c = .ok m' ↔ (m.chan c).timing = true ∧
    m' = m.setChan c { (m.chan c).record .abortdma with timing := false, state := .stopped } := by
  unfold timerRun menDmaTimeoutHalt abortdma
  cases h : (m.chan c).timing <;> simp [h, Dmachan.record, Men.setState, Men.setChan, eq_comm]

theorem workTake_ok : workTake m c = .ok m' ↔ (m.chan c).dwork = true ∧
    (m.chan c).working = false ∧ m' = m.setChan c { m.chan c with dwork := false, working := true } := by
  unfold workTake
  cases h : (m.chan c).dwork <;> cases h' : (m.chan c).working <;> simp [h, h', eq_comm]

theorem workRun_ok : workRun m c = .ok m' ↔ (m.chan c).working = true ∧
    (((m.chan c).state ≠ .stopping ∧ m' = m.setChan c { m.chan c with working := false }) ∨
      (m.chan c).state = .stopping ∧ (m.chan c).timing = false ∧
        m' = m.setChan c { (m.chan c).record .stopdma with
          working := false, timer := false, state := .stopped, transferTodo := 0 }) := by
  unfold workRun menDmaDoneWork
  cases h : (m.chan c).working
  · simp [h]
  · by_cases hs : (m.chan c).state = .stopping
    · simp only [if_true, Men.setChan_chan, hs, menDmaCleanHalt_ok, Men.setChan_setChan, h,
        ne_eq, not_true_eq_false, false_and, true_and, false_or]
      rfl
    · simp only [if_true, Men.setChan_chan, hs, if_false, h, ne_eq, not_false_eq_true, true_and,
        false_and, or_false, Except.ok.injEq]
      exact eq_comm

theorem irqRearm_cases (hc : irqRearm m c = .ok m') :
    m' = m ∨ (m.chan c).timing = false ∧ m' = m.setChan c { m.chan c with timer := true } := by
  unfold irqRearm Dmachan.hrtimerCancel at hc
  split_ifs at hc with ht hg
  · cases hc
  · cases hc
    exact .inr ⟨by simpa using hg, rfl⟩
  · cases hc
    exact .inl rfl

/-- The wait list after the scan of the interrupt handler. -/
def scanMarked (m : Men) (c : ChanRef) : Men :=
  m.setChan c { m.chan c with
    waitList := (m.chan c).waitList.map (completeReached (m.chan c).goodcnt) }

theorem irqScan_cases {newFrames : Nat} {finish : Bool} (hc : irqScan m c newFrames = .ok (m', finish)) :
    (0 < (m.chan c).transferTodo ∧ finish = false ∧ (m' = scanMarked m c ∨
        newFrames ≠ 0 ∧ menDmaQueueMax (scanMarked m c) c = .ok m')) ∨
      (m.chan c).transferTodo ≤ 0 ∧ finish = true ∧ m' = scanMarked m c := by
  unfold irqScan at hc
  dsimp only at hc
  split_ifs at hc with ht hn
  · obtain ⟨m₁, h₁, hc⟩ := bind_ok.mp hc
    cases hc
    exact .inl ⟨ht, rfl, .inr ⟨hn, h₁⟩⟩
  · cases hc
    exact .inl ⟨ht, rfl, .inl rfl⟩
  · cases hc
    exact .inr ⟨by omega, rfl, rfl⟩

theorem irqScan_frame {newFrames : Nat} {finish : Bool} (hc : irqScan m c newFrames = .ok (m', finish)) :
    MoveFrame c (scanMarked m c) m' := by
  rcases irqScan_cases hc with ⟨_, _, rfl | ⟨_, h⟩⟩ | ⟨_, _, rfl⟩
  · exact .refl c _
  · exact menDmaQueueMax_frame h
  · exact .refl c _

end Channels

section Buffers

section Errors
variable {k : Halt}

/-- Passing buffers on fails at an empty list and at a node that is in no list, nowhere else. -/
theorem Dmachan.listMoveTail_error {ch : Dmachan} {b : BufRef} {n : ListName}
    (hc : ch.listMoveTail b n = .error k) : k = .badList := by
  unfold Dmachan.listMoveTail at hc
  split at hc
  · cases hc
  · cases hc
    rfl

theorem queueReady_error (hc : queueReady m c = .error k) : k = .badList := by
  rcases bind_error.mp hc with hc | ⟨b, _, hc⟩
  · unfold Dmachan.listFirst at hc
    split at hc
    · cases hc
      rfl
    · cases hc
  · rcases bind_error.mp hc with hc | ⟨ch, _, hc⟩
    · exact Dmachan.listMoveTail_error hc
    · cases hc

theorem queueLoop_error {n : Nat} (hc : queueLoop m c n = .error k) : k = .badList := by
  induction n generalizing m with
  | zero => cases hc
  | succ n ih =>
    rcases bind_error.mp hc with hc | ⟨m₁, _, hc⟩
    · exact queueReady_error hc
    · exact ih hc

theorem menDmaQueueMax_error (hc : menDmaQueueMax m c = .error k) : k = .badList := by
  unfold menDmaQueueMax at hc
  dsimp only at hc
  split_ifs at hc
  · split at hc <;> cases hc
  · exact queueLoop_error hc
  · cases hc
    rfl

theorem queueIfLow_error (hc : queueIfLow m c = .error k) : k = .badList := by
  unfold queueIfLow at hc
  split_ifs at hc
  exact menDmaQueueMax_error hc

theorem menUnblockBuffer_error {sb : Option BufRef} (hc : menUnblockBuffer m c sb = .error k) :
    k = .badList := by
  unfold menUnblockBuffer at hc
  split at hc
  · cases hc
  · dsimp only at hc
    split at hc
    · cases hc
    · cases hc
    · cases hc
    · rcases bind_error.mp hc with hc | ⟨ch, _, hc⟩
      · exact Dmachan.listMoveTail_error hc
      · exact queueIfLow_error hc
    · exact queueIfLow_error hc

theorem unblockAll_error {sbs : List (Option SbRef)} (hc : unblockAll m c sbs = .error k) :
    k = .badList := by
  induction sbs generalizing m with
  | nil => cases hc
  | cons sb sbs ih =>
    rcases bind_error.mp hc with hc | ⟨m₁, _, hc⟩
    · exact menUnblockBuffer_error hc
    · exact ih hc

theorem dropFromChannel_error {b : BufRef} (hc : dropFromChannel m c b = .error k) : k = .badList := by
  unfold dropFromChannel at hc
  dsimp only at hc
  split_ifs at hc
  · rcases bind_error.mp hc with hc | ⟨ch, _, hc⟩
    · unfold Dmachan.listDel at hc
      split_ifs at hc
      cases hc
      rfl
    · cases hc
  · cases hc

end Errors

theorem menIoctlUnlockBuffer_cases {headnr : Nat} {index : Int} {ret : Ret}
    (hc : menIoctlUnlockBuffer m headnr index = .ok (m', ret)) :
    m' = m ∨ ∃ h c, meGetBufHead m headnr = some h ∧ (m.head h).chan = some c ∧
      ((index = -1 ∧ unblockAll m c (m.head h).bufs = .ok m') ∨
        ∃ b, meGetSubBufByHead m h index = some b ∧ menUnblockBuffer m c (some (.sb b)) = .ok m') := by
  unfold menIoctlUnlockBuffer at hc
  cases hh : meGetBufHead m headnr with
  | none =>
    rw [hh] at hc
    split_ifs at hc <;> cases hc <;> exact .inl rfl
  | some h =>
    rw [hh] at hc
    cases hl : (m.head h).chan with
    | none =>
      simp only [hl] at hc
      split_ifs at hc <;> cases hc <;> exact .inl rfl
    | some c =>
      simp only [hl] at hc
      split_ifs at hc with h1 h2 h3
      · cases hc
        exact .inl rfl
      · cases hc
        exact .inl rfl
      · obtain ⟨m₁, h₁, hc⟩ := bind_ok.mp hc
        split_ifs at hc
        cases hc
        exact .inr ⟨h, c, rfl, hl, .inl ⟨h3, h₁⟩⟩
      · split at hc
        · cases hc
        · cases hc
          exact .inl rfl
        · rename_i b hb
          obtain ⟨m₁, h₁, hc⟩ := bind_ok.mp hc
          cases hc
          have hsub : meGetSubBufByHead m h index = some b := meGetSubBufByHead_some.mpr ⟨by omega, hb⟩
          exact .inr ⟨h, c, rfl, hl, .inr ⟨b, hsub, h₁⟩⟩

theorem menQueueBufferAct_cases {headIdx bufIdx : Nat} (hc : menQueueBufferAct m headIdx bufIdx = .ok m') :
    ∃ h b c, queueRequest m headIdx bufIdx = some (h, b) ∧ (m.head h).chan = some c ∧
      menQueueBufferMove m c b = .ok m' := by
  unfold menQueueBufferAct at hc
  cases hq : queueRequest m headIdx bufIdx with
  | none =>
    rw [hq] at hc
    cases hc
  | some hb =>
    obtain ⟨h, b⟩ := hb
    simp only [hq] at hc
    cases hl : (m.head h).chan with
    | none =>
      rw [hl] at hc
      cases hc
    | some c =>
      rw [hl] at hc
      exact ⟨h, b, c, rfl, hl, hc⟩

theorem menQueueBufferCheck_marked {headIdx bufIdx : Nat} (hc : menQueueBufferCheck m headIdx bufIdx = .marked m') :
    ∃ h b, queueRequest m headIdx bufIdx = some (h, b) ∧
      ((m.head h).chan = none ∨ ∃ c, (m.head h).chan = some c ∧
        ((m.chan c).state = .stopped ∨ (m.chan c).state = .stopping)) ∧
      m' = m.setListname (.sb b) .ready := by
  unfold menQueueBufferCheck at hc
  cases hq : queueRequest m headIdx bufIdx with
  | none =>
    rw [hq] at hc
    cases hc
  | some hb =>
    obtain ⟨h, b⟩ := hb
    simp only [hq] at hc
    cases hl : (m.head h).chan with
    | none =>
      rw [hl] at hc
      cases hc
      exact ⟨h, b, rfl, .inl hl, rfl⟩
    | some c =>
      simp only [hl] at hc
      split_ifs at hc with hs
      cases hc
      exact ⟨h, b, rfl, .inr ⟨c, hl, hs⟩, rfl⟩

theorem menQueueBufferCheck_active {headIdx bufIdx : Nat} {b : SbRef}
    (hc : menQueueBufferCheck m headIdx bufIdx = .active c b) :
    ∃ h, queueRequest m headIdx bufIdx = some (h, b) ∧ (m.head h).chan = some c ∧
      (m.chan c).state ≠ .stopped ∧ (m.chan c).state ≠ .stopping ∧
      (m.chan c).mode = DMA_SELECTIVEMODE := by
  unfold menQueueBufferCheck at hc
  cases hq : queueRequest m headIdx bufIdx with
  | none =>
    rw [hq] at hc
    cases hc
  | some hb =>
    obtain ⟨h, b'⟩ := hb
    simp only [hq] at hc
    cases hl : (m.head h).chan with
    | none =>
      rw [hl] at hc
      cases hc
    | some c' =>
      simp only [hl] at hc
      split_ifs at hc with hs hm
      cases hc
      rw [not_or] at hs
      exact ⟨h, rfl, hl, hs.1, hs.2, not_not.mp hm⟩

theorem queueRequest_some {headIdx bufIdx : Nat} {h : HeadRef} {b : SbRef} :
    queueRequest m headIdx bufIdx = some (h, b) ↔
      meGetBufHead m headIdx = some h ∧ (m.head h).bufs[bufIdx]? = some (some b) := by
  have hsub : ∀ h', meGetSubBufByHead m h' bufIdx = some b ↔
      (m.head h').bufs[bufIdx]? = some (some b) := by
    intro h'
    simp [meGetSubBufByHead_some]
  unfold queueRequest
  cases hh : meGetBufHead m headIdx with
  | none => simp
  | some h' =>
    dsimp only
    cases hb : meGetSubBufByHead m h' bufIdx with
    | none =>
      simp only [Option.some.injEq]
      constructor
      · intro hf
        cases hf
      · rintro ⟨rfl, hb'⟩
        rw [← hsub, hb] at hb'
        cases hb'
    | some b' =>
      simp only [Option.some.injEq, Prod.mk.injEq]
      constructor
      · rintro ⟨rfl, rfl⟩
        exact ⟨rfl, (hsub h').mp hb⟩
      · rintro ⟨rfl, hb'⟩
        rw [← hsub, hb] at hb'
        exact ⟨rfl, Option.some.inj hb'⟩

theorem menIoctlGetHandshakeDmaBuffer_cases {mode headnr : Nat} {r : Except Errno Int}
    (hc : menIoctlGetHandshakeDmaBuffer m mode headnr = .ok (m', r)) :
    m' = m ∨ ∃ h c sb, meGetBufHead m headnr = some h ∧ (m.head h).chan = some c ∧
      (menLastBlocked m c = .ok (m', sb) ∨ menNextBlocked m c = .ok (m', sb)) := by
  unfold menIoctlGetHandshakeDmaBuffer at hc
  cases hh : meGetBufHead m headnr with
  | none =>
    rw [hh] at hc
    split_ifs at hc <;> cases hc <;> exact .inl rfl
  | some h =>
    simp only [hh] at hc
    cases hl : (m.head h).chan with
    | none =>
      rw [hl] at hc
      split_ifs at hc <;> cases hc <;> exact .inl rfl
    | some c =>
      simp only [hl] at hc
      split_ifs at hc
      · cases hc
        exact .inl rfl
      · obtain ⟨⟨m₁, sb⟩, h₁, hc⟩ := bind_ok.mp hc
        cases hc
        exact .inr ⟨h, c, sb, rfl, hl, .inl h₁⟩
      · obtain ⟨⟨m₁, sb⟩, h₁, hc⟩ := bind_ok.mp hc
        cases hc
        exact .inr ⟨h, c, sb, rfl, hl, .inr h₁⟩

end Buffers

end MenableDriver
