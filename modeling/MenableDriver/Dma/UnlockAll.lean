import MenableDriver.Dma.BufferLists
import MenableDriver.Dma.QueueState

/-!
# The unlock of all buffers

`men_ioctl_unlock_buffer` gives every buffer of a head back and asserts that none is grabbed or
locked then. The buffers with the application are the ones that are called `GRABBED_LIST` or
`NO_LIST`. A queue request that marks one of them while no acquisition is active makes it ready
in name only: it is not given back, and the assertion fires.
-/

namespace MenableDriver

set_option autoImplicit false

open Transition Shelves

variable {tr : Trust} {m m' m'' : Men} {s : Sys} {c : ChanRef} {h : HeadRef} {b : BufRef}

/-- The buffers of these lists are with the application, or wait for it. -/
def ListName.Lent (n : ListName) : Prop := n = .grabbed ∨ n = .noList

/-- A queue request takes a buffer that is with the application: it marks it, or it moves it. -/
def QueuesLent (s : Sys) : Event → Prop
  | .run (.queueCheck headIdx bufIdx) =>
    ∃ h b c, queueRequest s.men headIdx bufIdx = some (h, b) ∧ (s.men.head h).chan = some c ∧
      (s.men.chan c).Idle ∧ (s.men.name (.sb b)).Lent
  | .run (.queueAct headIdx bufIdx) =>
    ∃ h b, queueRequest s.men headIdx bufIdx = some (h, b) ∧ (s.men.name (.sb b)).Lent
  | _ => False

/-- No buffer is handed to the application. -/
def Returned (m m' : Men) : Prop := ∀ b, (m'.name b).Lent → (m.name b).Lent

theorem Returned.refl (m : Men) : Returned m m := fun _ => id

theorem Returned.trans (h : Returned m m') (h' : Returned m' m'') : Returned m m'' :=
  fun b hb => h b (h' b hb)

theorem Returned.of_name (h : ∀ b', m'.name b' = m.name b' ∨ ¬ (m'.name b').Lent) : Returned m m' := by
  intro b hb
  rcases h b with he | hn
  · rwa [← he]
  · exact absurd hb hn

theorem queueReady_returned (hc : queueReady m c = .ok m') : Returned m m' := by
  obtain ⟨sb, _, hc⟩ := bind_ok.mp hc
  obtain ⟨ch, _, hc⟩ := bind_ok.mp hc
  cases hc
  refine .of_name fun b' => ?_
  by_cases he : b' = sb
  · subst he
    exact .inr (by simp [Men.name, ListName.Lent])
  · exact .inl (by simp [Men.name, he, queueSb])

theorem queueLoop_returned {k : Nat} (hc : queueLoop m c k = .ok m') : Returned m m' := by
  induction k generalizing m with
  | zero =>
    cases hc
    exact .refl _
  | succ k ih =>
    obtain ⟨m₁, h₁, hc⟩ := bind_ok.mp hc
    exact (queueReady_returned h₁).trans (ih hc)

theorem menDmaQueueMax_returned (hc : menDmaQueueMax m c = .ok m') : Returned m m' := by
  unfold menDmaQueueMax at hc
  dsimp only at hc
  split_ifs at hc
  · split at hc <;> cases hc <;> exact .refl _
  · cases hc
    exact .refl _
  · have hr := queueLoop_returned hc
    exact fun b hb => hr b hb
  · cases hc
    exact .refl _

theorem queueIfLow_returned (hc : queueIfLow m c = .ok m') : Returned m m' := by
  unfold queueIfLow at hc
  split_ifs at hc
  · exact menDmaQueueMax_returned hc
  · cases hc
    exact .refl _

theorem menUnblockBuffer_returned (hc : menUnblockBuffer m c (some b) = .ok m') :
    Returned m m' ∧ ¬ (m'.name b).Lent := by
  have ready : ∀ ch, Returned m ((m.setListname b .ready).setChan c ch) ∧
      ¬ (((m.setListname b .ready).setChan c ch).name b).Lent := by
    intro ch
    refine ⟨.of_name fun b' => ?_, by simp [ListName.Lent]⟩
    by_cases he : b' = b
    · subst he
      exact .inr (by simp [ListName.Lent])
    · exact .inl (by simp [he])
  have queued : ∀ ch, queueIfLow ((m.setListname b .ready).setChan c ch) c = .ok m' →
      Returned m m' ∧ ¬ (m'.name b).Lent := by
    intro ch h₁
    obtain ⟨hr, hn⟩ := ready ch
    have hq := queueIfLow_returned h₁
    exact ⟨hr.trans hq, fun hb => hn (hq b hb)⟩
  unfold menUnblockBuffer at hc
  dsimp only at hc
  split at hc <;> rename_i hname
  · cases hc
    exact ⟨.refl _, by simp [Men.name, hname, ListName.Lent]⟩
  · cases hc
    exact ⟨.refl _, by simp [Men.name, hname, ListName.Lent]⟩
  · cases hc
    exact ⟨.refl _, by simp [Men.name, hname, ListName.Lent]⟩
  · obtain ⟨ch, _, hc⟩ := bind_ok.mp hc
    exact queued _ hc
  · exact queued _ hc

/-- The loop of the request leaves no buffer with the application. -/
theorem unblockAll_returned {sbs : List (Option SbRef)} (hc : unblockAll m c sbs = .ok m') :
    Returned m m' ∧ ∀ b, some b ∈ sbs → ¬ (m'.name (.sb b)).Lent := by
  induction sbs generalizing m with
  | nil =>
    cases hc
    exact ⟨.refl _, fun b hb => by cases hb⟩
  | cons sb sbs ih =>
    obtain ⟨m₁, h₁, hc⟩ := bind_ok.mp hc
    obtain ⟨hr, hrest⟩ := ih hc
    cases sb with
    | none =>
      cases h₁
      exact ⟨hr, fun b hb => hrest b (by simpa using hb)⟩
    | some b' =>
      obtain ⟨hr₁, hn⟩ := menUnblockBuffer_returned h₁
      refine ⟨hr₁.trans hr, fun b hb => ?_⟩
      rcases List.mem_cons.mp hb with he | hb
      · obtain rfl := Option.some.inj he
        exact fun hl => hn (hr _ hl)
      · exact hrest b hb

/-- Marks stand over no buffer that is with the application, and the buffers that are are
counted. -/
structure Trust.Lends (tr : Trust) : Prop where
  marks : ∀ n, tr.marks n → ¬ n.Lent
  counts : ∀ n, n.Lent → tr.counts n

/-- When no buffer is called grabbed or locked, none is counted so. -/
theorem Shelved.nothingLent (hl : tr.Lends) (hs : Shelved tr m c h) (hst : Stock (m.regs h) h)
    (hn : ∀ b ∈ m.regs h, ¬ (m.name b).Lent) :
    (m.chan c).count .grabbed = 0 ∧ (m.chan c).count .noList = 0 := by
  have place : ∀ b ∈ m.regs h, ∀ n : ListName, At (m.chan c).list b n.place → ¬ n.Lent := by
    intro b hb n hat hlent
    obtain ⟨n', hat', hname⟩ := hs.filed.placed b hb
    obtain rfl : n = n' := place_inj (hat.unique hat')
    rcases hname with hname | ⟨_, hm, _⟩
    · exact hn b hb (hname ▸ hlent)
    · exact hl.marks n hm hlent
  constructor
  · rw [hs.counted.count .grabbed (hl.counts _ (.inl rfl)), held_list (by simp), List.length_eq_zero_iff]
    refine List.eq_nil_iff_forall_not_mem.mpr fun b hb => ?_
    have hne : b ≠ .dummy h := by
      rintro rfl
      rcases hs.filed.owned .grabbed _ hb with hr | ⟨_, he⟩
      · exact hst.dummy hr
      · cases he
    obtain ⟨hreg, hat⟩ := hs.filed.at_of_mem hb hne
    exact place b hreg .grabbed hat (.inl rfl)
  · rw [hs.counted.count .noList (hl.counts _ (.inr rfl)), held_noList, List.countP_eq_zero]
    intro b hb hlinked
    obtain ⟨n, hat, _⟩ := hs.filed.placed b hb
    have hlent := place b hb n hat
    rw [linked_at hat] at hlinked
    simp only [decide_not, Bool.not_not, decide_eq_true_eq] at hlinked
    exact hlent (.inr hlinked)

/-- The assertions hold, and the request leaves nothing grabbed and nothing locked. -/
def UnlocksAll (m : Men) : Prop :=
  ∀ headnr, menIoctlUnlockBuffer m headnr (-1) ≠ .error .bugOn ∧
    ∀ m' ret h c, menIoctlUnlockBuffer m headnr (-1) = .ok (m', ret) → meGetBufHead m headnr = some h →
      (m.head h).chan = some c → (m'.chan c).count .grabbed = 0 ∧ (m'.chan c).count .noList = 0

/-- The loop of the request on the head of a channel, in a board in order. -/
theorem unblockAll_nothingLent (hl : tr.Lends) (ho : Orderly tr m) (hh : h ∈ m.headsList)
    (hlink : (m.head h).chan = some c) (hc : unblockAll m c (m.head h).bufs = .ok m') :
    (m'.chan c).count .grabbed = 0 ∧ (m'.chan c).count .noList = 0 := by
  have hact := ho.active hh hlink
  have hk : Keeps tr c h m m' := unblockAll_keeps (ho.shelves c h hact) (ho.stock hact) hact
    (fun b hb => mem_regs.mpr hb) hc
  obtain ⟨_, hreturned⟩ := unblockAll_returned hc
  refine hk.shelved.nothingLent hl (hk.stock (ho.stock hact)) fun b hb => ?_
  rw [hk.regs] at hb
  obtain ⟨sb, rfl⟩ := exists_sb_of_mem_regs hb
  exact hreturned sb (mem_regs.mp hb)

theorem OrderlyBy.unlocksAll (hl : tr.Lends) (ho : Orderly tr m) : UnlocksAll m := by
  intro headnr
  unfold menIoctlUnlockBuffer
  cases hh : meGetBufHead m headnr with
  | none => simp
  | some h =>
    cases hlink : (m.head h).chan with
    | none =>
      refine ⟨?_, fun m' ret h' c' _ hh' hlink' => ?_⟩
      · simp only [hlink]
        split_ifs <;> simp
      · cases hh'
        rw [hlink] at hlink'
        cases hlink'
    | some c =>
      have hloop : ∀ m₁, unblockAll m c (m.head h).bufs = .ok m₁ →
          (m₁.chan c).count .grabbed = 0 ∧ (m₁.chan c).count .noList = 0 := fun m₁ h₁ =>
        unblockAll_nothingLent hl ho (meGetBufHead_mem hh) hlink h₁
      have hlen : ¬ (((m.head h).bufs.length : Int) ≤ -1) := by omega
      simp only [hlink, hlen, if_false, show ¬ ((-1 : Int) < -1) by omega, if_true]
      constructor
      · intro hc
        rcases bind_error.mp hc with hc | ⟨m₁, h₁, hc⟩
        · cases unblockAll_error hc
        · obtain ⟨hg, hn⟩ := hloop m₁ h₁
          rw [if_neg (by simp [hg, hn])] at hc
          cases hc
      · intro m' ret h' c' hc hh' hlink'
        cases hh'
        rw [hlink] at hlink'
        cases hlink'
        obtain ⟨m₁, h₁, hc⟩ := bind_ok.mp hc
        have hz := hloop m₁ h₁
        rw [if_neg (by simp [hz.1, hz.2])] at hc
        cases hc
        exact hz

section Returns

/-- One buffer that is ready is queued. -/
theorem queueReady_total (hr : (m.chan c).list .ready ≠ []) : ∃ m', queueReady m c = .ok m' ∧
    ((m'.chan c).list .ready).length + 1 = ((m.chan c).list .ready).length := by
  obtain ⟨b, rest, hl⟩ := List.exists_cons_of_ne_nil hr
  have hfirst : (m.chan c).listFirst .ready = .ok b := Dmachan.listFirst_ok.mpr ⟨rest, hl⟩
  have hmove : ((queueSb m c b).chan c).listMoveTail b .hot = .ok { (queueSb m c b).chan c with
      list := moveLast ((queueSb m c b).chan c).list b .hot } :=
    Dmachan.listMoveTail_ok.mpr ⟨⟨.ready, by simp [queueSb, Dmachan.record, hl]⟩, rfl⟩
  refine ⟨_, bind_ok.mpr ⟨b, hfirst, bind_ok.mpr ⟨_, hmove, rfl⟩⟩, ?_⟩
  have hleft : moveLast (m.chan c).list b .hot .ready = rest := by
    rw [moveLast, putLast_ne (by simp), takeOff, hl, List.erase_cons_head]
  simp [queueSb, Dmachan.record, Dmachan.incCount, Dmachan.decCount, hleft, hl]

theorem queueLoop_total {k : Nat} (hk : k ≤ ((m.chan c).list .ready).length) : ∃ m', queueLoop m c k =
    .ok m' := by
  induction k generalizing m with
  | zero => exact ⟨m, rfl⟩
  | succ k ih =>
    obtain ⟨m₁, h₁, hlen⟩ := queueReady_total (m := m) (c := c) (List.ne_nil_of_length_pos (by omega))
    obtain ⟨m', h'⟩ := ih (m := m₁) (by omega)
    exact ⟨m', bind_ok.mpr ⟨m₁, h₁, h'⟩⟩

/-- `men_dma_queue_max` never asks for more buffers than are counted ready. -/
theorem menDmaQueueMax_total (hr : (m.chan c).count .ready = ((m.chan c).list .ready).length) :
    ∃ m', menDmaQueueMax m c = .ok m' := by
  unfold menDmaQueueMax
  dsimp only
  split_ifs with htodo hempty hzero hbound
  · split <;> exact ⟨_, rfl⟩
  · exact ⟨_, rfl⟩
  · apply queueLoop_total
    have hle : numBufsToQueue m c ≤ (m.chan c).count .ready := by
      simp only [numBufsToQueue]
      omega
    simp only [Men.setChan_chan, if_true, Dmachan.record]
    omega
  · simp only [numBufsToQueue] at hbound
    omega
  · exact ⟨_, rfl⟩

theorem queueIfLow_total (hr : (m.chan c).count .ready = ((m.chan c).list .ready).length) :
    ∃ m', queueIfLow m c = .ok m' := by
  unfold queueIfLow
  split_ifs
  · exact menDmaQueueMax_total hr
  · exact ⟨m, rfl⟩

theorem menUnblockBuffer_total (hr : tr.counts .ready) (hs : Shelved tr m c h) (hst : Stock (m.regs h) h)
    (hb : b ∈ m.regs h) : ∃ m', menUnblockBuffer m c (some b) = .ok m' := by
  unfold menUnblockBuffer
  dsimp only
  split <;> rename_i hname
  · exact ⟨m, rfl⟩
  · exact ⟨m, rfl⟩
  · exact ⟨m, rfl⟩
  · obtain ⟨hat, hk⟩ := unblockGrabbed_keeps hs hst hb hname
    have hmove : (m.chan c).listMoveTail b .ready = .ok { m.chan c with
        list := moveLast (m.chan c).list b .ready } :=
      Dmachan.listMoveTail_ok.mpr ⟨⟨.grabbed, hat.mem_iff.mpr rfl⟩, rfl⟩
    obtain ⟨m', h'⟩ := queueIfLow_total (hk.shelved.counted.count .ready hr)
    exact ⟨m', bind_ok.mpr ⟨_, hmove, h'⟩⟩
  · have hk := unblockLocked_keeps hs hst hb hname
    exact queueIfLow_total (hk.shelved.counted.count .ready hr)

theorem unblockAll_total {sbs : List (Option SbRef)} (hr : tr.counts .ready) (hs : Shelved tr m c h)
    (hst : Stock (m.regs h) h) (hact : (m.chan c).active = some h)
      (hb : ∀ b, some b ∈ sbs → .sb b ∈ m.regs h) :
    ∃ m', unblockAll m c sbs = .ok m' := by
  induction sbs generalizing m with
  | nil => exact ⟨m, rfl⟩
  | cons sb sbs ih =>
    obtain ⟨m₁, h₁⟩ : ∃ m₁, menUnblockBuffer m c (sb.map .sb) = .ok m₁ := by
      cases sb with
      | none => exact ⟨m, rfl⟩
      | some b => exact menUnblockBuffer_total hr hs hst (hb b List.mem_cons_self)
    obtain ⟨hk, hact'⟩ := unblockSlot_keeps hs hst hact
      (fun b he => hb b (he ▸ List.mem_cons_self)) h₁
    obtain ⟨m', h'⟩ := ih hk.shelved (hk.stock hst) hact' fun b hm => by
      rw [hk.regs]
      exact hb b (List.mem_cons_of_mem _ hm)
    exact ⟨m', bind_ok.mpr ⟨m₁, h₁, h'⟩⟩

/-- The request returns. -/
theorem OrderlyBy.unlockReturns (hl : tr.Lends) (hr : tr.counts .ready) (ho : Orderly tr m) (headnr : Nat) :
    ∃ m' ret, menIoctlUnlockBuffer m headnr (-1) = .ok (m', ret) := by
  unfold menIoctlUnlockBuffer
  cases hh : meGetBufHead m headnr with
  | none => exact ⟨m, some .EINVAL, rfl⟩
  | some h =>
    have hlen : ¬ (((m.head h).bufs.length : Int) ≤ -1) := by omega
    simp only [hlen, if_false, show ¬ ((-1 : Int) < -1) by omega, if_true]
    cases hlink : (m.head h).chan with
    | none => exact ⟨m, none, rfl⟩
    | some c =>
      have hact := ho.active (meGetBufHead_mem hh) hlink
      obtain ⟨m', h'⟩ : ∃ m', unblockAll m c (m.head h).bufs = .ok m' :=
        unblockAll_total hr (ho.shelves c h hact) (ho.stock hact) hact fun b hb => mem_regs.mpr hb
      obtain ⟨hg, hn⟩ := unblockAll_nothingLent hl ho (meGetBufHead_mem hh) hlink h'
      refine ⟨m', none, bind_ok.mpr ⟨m', h', ?_⟩⟩
      rw [if_neg (by simp [hg, hn])]

end Returns

/-- Marks stand over the buffers that are not with the application; those are counted. -/
def lentCounts : Trust := ⟨fun n => ¬ n.Lent, ListName.Lent, False⟩

/-- All counters are right as well. -/
def lentExact : Trust := ⟨fun n => ¬ n.Lent, fun _ => True, False⟩

theorem queueCheck_complies {headIdx bufIdx : Nat} (hm : ∀ n, ¬ n.Lent → tr.marks n)
    (hQ : ¬ QueuesLent s (.run (.queueCheck headIdx bufIdx))) :
      Complies tr s.men (.queueCheck headIdx bufIdx) :=
  fun h b c hq hlink hidle => .inr (hm _ fun hl => hQ ⟨h, b, c, hq, hlink, hidle, hl⟩)

theorem lentCounts_complies (ho : Orderly lentCounts s.men) {k : Call} (hT : ¬ HeadTaken s (.run k))
    (hQ : ¬ QueuesLent s (.run k)) : Complies lentCounts s.men k := by
  cases k with
  | queueAct headIdx bufIdx =>
    intro h b c hq hlink n₀ hat
    obtain ⟨hh, hslot⟩ := queueRequest_some.mp hq
    have hs := ho.shelves c h (ho.active (meGetBufHead_mem hh) hlink)
    obtain ⟨n, hat', hname⟩ := hs.filed.placed _ (slot_mem_regs hslot)
    obtain rfl : n₀ = n := place_inj (hat.unique hat')
    have hnot : ¬ n₀.Lent := by
      rcases hname with hname | ⟨_, hm, _⟩
      · exact fun hl => hQ ⟨h, b, hq, hname ▸ hl⟩
      · exact hm
    exact ⟨fun hf => absurd hf (by simp [lentCounts, ListName.Lent]), fun hl => absurd hl hnot,
      fun hf => absurd hf (by simp [lentCounts, ListName.Lent]), fun hf => hf.elim⟩
  | delBuffer headnr index =>
    intro h b c hh hb hlink _
    refine ⟨fun n₀ hat => ?_, fun hf => hf.elim⟩
    have hs := ho.shelves c h (ho.active (meGetBufHead_mem hh) hlink)
    obtain ⟨n, hat', hname⟩ := hs.filed.placed _ (slot_mem_regs (meGetSubBufByHead_some.mp hb).2)
    obtain rfl : n₀ = n := place_inj (hat.unique hat')
    refine hname.imp_right fun ⟨_, hm, hr⟩ => ⟨hm, ?_⟩
    rw [hr]
    simp [lentCounts, ListName.Lent]
  | queueCheck headIdx bufIdx => exact queueCheck_complies (fun _ => id) hQ
  | _ => exact hT

/-- As long as no start takes a head over and no queue request takes a buffer that is with the
application, the assertions of the unlock of all buffers hold. As long as, besides, the counters
are right, it returns. -/
theorem unlock_all (activeFpgas : Nat) (dmacnt : List Nat) (fpga : ChanRef → Nat) (fifo : UInt32)
    (es : List Event)
    (hG : Meets step (fun s e => ¬ HeadTaken s e ∧ ¬ QueuesLent s e) (sysProbe activeFpgas dmacnt fpga fifo) es) :
    Always step (fun s => UnlocksAll s.men) (sysProbe activeFpgas dmacnt fpga fifo) es ∧
      (Meets step (fun s e => ¬ Miscounts s e) (sysProbe activeFpgas dmacnt fpga fifo) es →
        Always step (fun s => ∀ headnr, ∃ m ret, menIoctlUnlockBuffer s.men headnr (-1) = .ok (m, ret))
          (sysProbe activeFpgas dmacnt fpga fifo) es) := by
  constructor
  · have hall : Always step (Tidy lentCounts) (sysProbe activeFpgas dmacnt fpga fifo) es :=
      always_of_meets (fun s e t hG ht h => step_tidy ht
        (fun k he => lentCounts_complies ht.orderly (he ▸ hG.1) (he ▸ hG.2)) h)
        (tidy_probe activeFpgas dmacnt fpga fifo) hG
    have hl : lentCounts.Lends := ⟨fun _ => id, fun _ => id⟩
    exact hall.mono fun s ht => ht.orderly.unlocksAll hl
  · intro hM
    have hall : Always step (Tidy lentExact) (sysProbe activeFpgas dmacnt fpga fifo) es :=
      always_of_meets (fun s e t hG ht h => step_tidy ht (fun k he => by
          subst he
          exact complies_of_counts id ht.orderly hG.1.1 hG.2 fun headIdx bufIdx he =>
            he ▸ queueCheck_complies (fun _ => id) (he ▸ hG.1.2)) h)
        (tidy_probe activeFpgas dmacnt fpga fifo) (hG.and hM)
    have hl : lentExact.Lends := ⟨fun _ => id, fun _ _ => trivial⟩
    exact hall.mono fun s ht => ht.orderly.unlockReturns hl trivial

section Example

theorem lentCheck_sound (s : Sys) (e : Event)
    (h : (countsCheck s e && !(match e with | .run (.queueCheck ..) => true | _ => false)) = true) :
    (¬ HeadTaken s e ∧ ¬ QueuesLent s e) ∧ ¬ Miscounts s e := by
  rw [Bool.and_eq_true] at h
  obtain ⟨hT, hM⟩ := countsCheck_sound s e h.1
  refine ⟨⟨hT, ?_⟩, hM⟩
  cases e with
  | irqEnter => exact id
  | run k =>
    cases k with
    | queueCheck => cases h.2
    | queueAct => cases h.1
    | _ => exact id

/-- Two frames come in, one buffer goes to the application, and the acquisition is stopped. -/
def stopWithLent : List Event :=
  oneOfFive ++ [.run (.irqScan 0 1), .run (.irqRearm 0), .run (.getFrame 0 0), .run (.stop 0),
    .run (.workTake 0),
    .run (.workRun 0), .run (.cleanScan 0)]

theorem unlock_all_stopWithLent :
    Always step (fun s => UnlocksAll s.men) (sysProbe 1 [1] (fun _ => 0) 8) stopWithLent ∧
      Always step (fun s => ∀ headnr, ∃ m ret, menIoctlUnlockBuffer s.men headnr (-1) = .ok (m, ret))
        (sysProbe 1 [1] (fun _ => 0) 8) stopWithLent := by
  have hG : Meets step (fun s e => (¬ HeadTaken s e ∧ ¬ QueuesLent s e) ∧ ¬ Miscounts s e)
      (sysProbe 1 [1] (fun _ => 0) 8) stopWithLent := meets_of_check lentCheck_sound (by decide +kernel)
  have hu := unlock_all 1 [1] (fun _ => 0) 8 stopWithLent (hG.mono fun _ _ h => h.1)
  exact ⟨hu.1, hu.2 (hG.mono fun _ _ h => h.2)⟩

/-- The application queues the buffer that it still has, and then unlocks all. -/
theorem unlock_bug : run step (sysProbe 1 [1] (fun _ => 0) 8)
    (stopWithLent ++ [.run (.queueCheck 0 0), .run (.unlock 0 (-1))]) = .error .bugOn :=
  run_error_of_stopsWith (by decide +kernel)

end Example

end MenableDriver
