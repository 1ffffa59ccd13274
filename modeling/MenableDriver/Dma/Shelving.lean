import MenableDriver.Dma.Account
import MenableDriver.Dma.Filing

/-!
# The list functions keep the buffers filed

`Shelved` is `Filed` and `Counted` for a channel of the board and its active head. Each
function that moves buffers keeps it, and it changes no `listname` but those of the buffers of
that head.
-/

namespace MenableDriver

set_option autoImplicit false

open Transition Shelves

def Men.name (m : Men) (b : BufRef) : ListName := (m.buf b).listname

@[simp] theorem name_setChan (m : Men) (c : ChanRef) (ch : Dmachan) : (m.setChan c ch).name = m.name := rfl

@[simp] theorem name_setListname (m : Men) (b b' : BufRef) (n : ListName) :
    (m.setListname b n).name b' = if b' = b then n else m.name b' := by
  simp only [Men.name, Men.setListname, Men.modBuf_buf]
  split_ifs <;> rfl

theorem name_modBuf {m : Men} {b : BufRef} {f : Dmabuf → Dmabuf}
    (hf : (f (m.buf b)).listname = (m.buf b).listname)
    (b' : BufRef) : (m.modBuf b f).name b' = m.name b' := by
  simp only [Men.name, Men.modBuf_buf]
  split_ifs with h
  · rw [hf, h]
  · rfl

structure Shelved (tr : Trust) (m : Men) (c : ChanRef) (h : HeadRef) : Prop where
  filed : Filed tr (m.chan c) m.name (m.regs h) h
  counted : Counted tr (m.chan c) (m.regs h) h
  flown : tr.flight → (inFlight (m.chan c).log).Subperm ((m.chan c).list .hot)

/-- The buffers of the head stay filed, and no other buffer is renamed. -/
structure Keeps (tr : Trust) (c : ChanRef) (h : HeadRef) (m m' : Men) : Prop where
  shelved : Shelved tr m' c h
  regs : m'.regs h = m.regs h
  names : ∀ b, b ∉ m.regs h → m'.name b = m.name b

variable {tr : Trust} {m m' m'' : Men} {c : ChanRef} {h : HeadRef} {b : BufRef} {n n₀ : ListName}

namespace Keeps

theorem refl (hs : Shelved tr m c h) : Keeps tr c h m m := ⟨hs, rfl, fun _ _ => rfl⟩

theorem trans (hk : Keeps tr c h m m') (hk' : Keeps tr c h m' m'') : Keeps tr c h m m'' where
  shelved := hk'.shelved
  regs := hk'.regs.trans hk.regs
  names b hb := (hk'.names b (hk.regs ▸ hb)).trans (hk.names b hb)

theorem stock (hk : Keeps tr c h m m') (hst : Stock (m.regs h) h) : Stock (m'.regs h) h := by
  rw [hk.regs]
  exact hst

end Keeps

/-- Lists and counters are left alone; what is in flight can only become less. -/
theorem Shelved.congr (hs : Shelved tr m c h) (hregs : m'.regs h = m.regs h)
    (hname : ∀ b ∈ m.regs h, m'.name b = m.name b) (hl : (m'.chan c).list = (m.chan c).list)
    (hcount : (m'.chan c).count = (m.chan c).count) (hidle : (m.chan c).Idle → (m'.chan c).Idle)
    (hlog : inFlight (m'.chan c).log = inFlight (m.chan c).log ∨ inFlight (m'.chan c).log = []) :
    Shelved tr m' c h where
  filed := by
    rw [hregs]
    exact hs.filed.congr hl hidle hname
  counted := by
    rw [hregs]
    exact hs.counted.congr hl hcount
  flown hf := by
    rcases hlog with he | he
    · rw [he, hl]
      exact hs.flown hf
    · rw [he]
      exact List.nil_subperm

/-- A buffer of the head goes from one list to another. -/
structure Moves (tr : Trust) (c : ChanRef) (h : HeadRef) (b : BufRef) (n₀ n : ListName)
    (m m' : Men) : Prop where
  mem : b ∈ m.regs h
  regs : m'.regs h = m.regs h
  shift : Shift (m.chan c).list (m'.chan c).list b n₀.place n.place
  idle : (m.chan c).Idle → (m'.chan c).Idle
  name : m'.name b = n
  names : ∀ b', b' ≠ b → m'.name b' = m.name b'
  flown : tr.flight → (inFlight (m.chan c).log).Subperm ((m.chan c).list .hot) →
    (inFlight (m'.chan c).log).Subperm ((m'.chan c).list .hot)

theorem Moves.keeps (hm : Moves tr c h b n₀ n m m') (hs : Shelved tr m c h) (hst : Stock (m.regs h) h)
    (hne : tr.counts n → n ≠ n₀) (hto : tr.counts n → (m'.chan c).count n = Counter.inc ((m.chan c).count n))
    (hfrom : tr.counts n₀ → (m'.chan c).count n₀ = Counter.dec ((m.chan c).count n₀))
    (hothers : ∀ k, tr.counts k → k ≠ n → k ≠ n₀ → (m'.chan c).count k = (m.chan c).count k) :
    Keeps tr c h m m' := by
  have hfiled : Filed tr (m'.chan c) m'.name (m.regs h) h :=
    hs.filed.shift hm.mem hm.shift hm.idle hm.name fun b' _ he => hm.names b' he
  have hcounted := hs.counted.shift hs.filed hfiled hst hm.mem hm.shift hne hto hfrom hothers
  refine ⟨⟨hm.regs ▸ hfiled, hm.regs ▸ hcounted, fun hf => hm.flown hf (hs.flown hf)⟩, hm.regs,
    fun b' hb' => ?_⟩
  exact hm.names b' fun he => hb' (he ▸ hm.mem)

/-- The usual move, with both counters. -/
theorem Moves.keeps_of_counts (hm : Moves tr c h b n₀ n m m') (hs : Shelved tr m c h)
    (hst : Stock (m.regs h) h)
    (hne : n ≠ n₀) (hcount : (m'.chan c).count = (((m.chan c).decCount n₀).incCount n).count) :
    Keeps tr c h m m' := by
  refine hm.keeps hs hst (fun _ => hne) (fun _ => ?_) (fun _ => ?_) fun k _ hk hk₀ => ?_
  · rw [hcount, Dmachan.incCount_same, Dmachan.decCount_ne _ hne]
  · rw [hcount, Dmachan.incCount_ne _ (Ne.symm hne), Dmachan.decCount_same]
  · rw [hcount, Dmachan.incCount_ne _ hk, Dmachan.decCount_ne _ hk₀]

theorem incCount_decCount (ch : Dmachan) (hne : n ≠ n₀) :
    ((ch.incCount n).decCount n₀).count = ((ch.decCount n₀).incCount n).count := by
  simp only [Dmachan.incCount, Dmachan.decCount, Function.update_of_ne hne, Function.update_of_ne hne.symm]
  exact Function.update_comm hne _ _ _

/-- The first buffer of a list is one of the head, unless it is the hot dummy. -/
theorem Shelved.first (hs : Shelved tr m c h) (hf : (m.chan c).listFirst n = .ok b) (hb : b ≠ .dummy h) :
    b ∈ m.regs h ∧ At (m.chan c).list b n.place := by
  obtain ⟨rest, hl⟩ := Dmachan.listFirst_ok.mp hf
  exact hs.filed.at_of_mem (by simp [hl]) hb

theorem Shelved.first_ne_dummy (hs : Shelved tr m c h) (hf : (m.chan c).listFirst n = .ok b) (hn : n ≠ .hot)
    (hst : Stock (m.regs h) h) : b ≠ .dummy h := by
  obtain ⟨rest, hl⟩ := Dmachan.listFirst_ok.mp hf
  rintro rfl
  rcases hs.filed.owned n (.dummy h) (by simp [hl]) with hr | ⟨_, he⟩
  · exact hst.dummy hr
  · exact hn he

theorem place_ready : ListName.place .ready = some .ready := rfl
theorem place_hot : ListName.place .hot = some .hot := rfl
theorem place_grabbed : ListName.place .grabbed = some .grabbed := rfl

theorem queueReady_keeps (hs : Shelved tr m c h) (hst : Stock (m.regs h) h) (hc : queueReady m c = .ok m') :
    Keeps tr c h m m' := by
  obtain ⟨b, hfirst, hc⟩ := bind_ok.mp hc
  obtain ⟨ch, hch, hc⟩ := bind_ok.mp hc
  obtain ⟨_, rfl⟩ := Dmachan.listMoveTail_ok.mp hch
  obtain ⟨hb, hat⟩ := hs.first hfirst (hs.first_ne_dummy hfirst (by simp) hst)
  have hshift := Shift.moveLast hat .hot
  have hm : Moves tr c h b .ready .hot m m' := by
    cases hc
    refine ⟨hb, rfl, ?_, ?_, ?_, fun b' he => ?_, fun _ hsub => ?_⟩
    · simpa [queueSb, Dmachan.record, Dmachan.incCount, Dmachan.decCount, place_hot] using hshift
    · simp [queueSb, Dmachan.record, Dmachan.incCount, Dmachan.decCount, Dmachan.Idle]
    · simp [Men.name]
    · simp [Men.name, he, queueSb]
    · have hperm := hshift.perm_to (i := .hot) (by simp [place_ready]) rfl
      have happ := ((List.subperm_append_right [b]).mpr hsub).trans
        ((List.perm_append_singleton b _).trans hperm).subperm
      simpa [queueSb, Dmachan.record, Dmachan.incCount, Dmachan.decCount, inFlight] using happ
  apply hm.keeps_of_counts hs hst (by simp)
  cases hc
  simp [queueSb, Dmachan.record, Dmachan.incCount, Dmachan.decCount]

theorem queueLoop_keeps {k : Nat} (hs : Shelved tr m c h) (hst : Stock (m.regs h) h)
    (hc : queueLoop m c k = .ok m') : Keeps tr c h m m' := by
  induction k generalizing m with
  | zero =>
    cases hc
    exact .refl hs
  | succ k ih =>
    obtain ⟨m₁, h₁, hc⟩ := bind_ok.mp hc
    have hk := queueReady_keeps hs hst h₁
    exact hk.trans (ih hk.shelved (hk.stock hst) hc)

/-- The dummy is queued when nothing is hot. -/
theorem queueDummy_keeps (hs : Shelved tr m c h) (hst : Stock (m.regs h) h)
    (hzero : (m.chan c).count .hot = 0) : Keeps tr c h m (queueDummy m c h) := by
  have hlist : ((queueDummy m c h).chan c).list = putFirst (m.chan c).list (.dummy h) .hot := by
    simp [queueDummy, queueSb, Dmachan.record, Dmachan.incCount, Dmachan.listAdd]
  have hcount : ((queueDummy m c h).chan c).count = ((m.chan c).incCount .hot).count := by
    simp [queueDummy, queueSb, Dmachan.record, Dmachan.incCount, Dmachan.listAdd]
  have hlog : inFlight ((queueDummy m c h).chan c).log = inFlight (m.chan c).log ++ [.dummy h] := by
    simp [queueDummy, queueSb, Dmachan.record, Dmachan.incCount, Dmachan.listAdd, inFlight]
  have hidle : (m.chan c).Idle → ((queueDummy m c h).chan c).Idle := by
    simp [queueDummy, queueSb, Dmachan.record, Dmachan.incCount, Dmachan.listAdd, Dmachan.Idle]
  have hothers : ∀ b, b ≠ .dummy h → ∀ k,
      (((queueDummy m c h).chan c).list k).count b = ((m.chan c).list k).count b := by
    intro b hb k
    rw [hlist]
    by_cases hk : k = .hot
    · subst hk
      rw [putFirst_same, List.count_cons_of_ne (Ne.symm hb)]
    · rw [putFirst_ne hk]
  have hdummy : ∀ k, .dummy h ∈ ((queueDummy m c h).chan c).list k → k = .hot := by
    intro k hm
    rw [hlist, mem_putFirst] at hm
    rcases hm with hm | ⟨hk, _⟩
    · rcases hs.filed.owned k _ hm with hr | ⟨_, hk⟩
      · exact absurd hr hst.dummy
      · exact hk
    · exact hk
  have hfiled : Filed tr ((queueDummy m c h).chan c) m.name (m.regs h) h :=
    hs.filed.dummy hst.dummy hidle hothers hdummy fun _ _ => rfl
  have hlinked : ∀ b ∈ m.regs h, ((queueDummy m c h).chan c).linked b = (m.chan c).linked b := by
    intro b hb
    have hne : b ≠ .dummy h := fun he => hst.dummy (he ▸ hb)
    refine linked_congr fun k => ?_
    rw [← List.count_pos_iff, hothers b hne, List.count_pos_iff]
  have hcounted : Counted tr ((queueDummy m c h).chan c) (m.regs h) h := by
    refine hs.counted.dummyOnly hlinked (fun k hk => ?_) (fun k hk => ?_) fun hh => ?_
    · rw [hlist, putFirst_ne hk]
    · rw [hcount, Dmachan.incCount_ne _ hk]
    · have hempty : (m.chan c).list .hot = [] :=
        List.length_eq_zero_iff.mp ((hs.counted.count .hot hh).symm.trans hzero)
      rw [hcount, Dmachan.incCount_same, hzero, hlist, putFirst_same, hempty]
      exact ⟨rfl, by simp⟩
  refine ⟨⟨hfiled, hcounted, fun hf => ?_⟩, rfl, fun _ _ => rfl⟩
  rw [hlog, hlist, putFirst_same]
  exact ((List.subperm_append_right _).mpr (hs.flown hf)).trans (List.perm_append_singleton _ _).subperm

theorem menDmaQueueMax_keeps (hs : Shelved tr m c h) (hst : Stock (m.regs h) h)
    (hact : (m.chan c).active = some h) (hc : menDmaQueueMax m c = .ok m') : Keeps tr c h m m' := by
  unfold menDmaQueueMax at hc
  dsimp only at hc
  split_ifs at hc with htodo hempty hzero hbound
  · rw [hact] at hc
    cases hc
    exact queueDummy_keeps hs hst hzero
  · cases hc
    exact .refl hs
  · have hs₁ : Shelved tr (m.setChan c ((m.chan c).record
        (.bound (numFreeInDmaFifo m c) (numBufsToQueue m c)))) c h :=
      hs.congr rfl (fun _ _ => rfl) (by simp [Dmachan.record]) (by simp [Dmachan.record])
        (by simp [Dmachan.record, Dmachan.Idle]) (.inl (by simp [Dmachan.record, inFlight]))
    have hk : Keeps tr c h m (m.setChan c ((m.chan c).record
        (.bound (numFreeInDmaFifo m c) (numBufsToQueue m c)))) := ⟨hs₁, rfl, fun _ _ => rfl⟩
    exact hk.trans (queueLoop_keeps hs₁ (hk.stock hst) hc)
  · cases hc
    exact .refl hs

theorem menMoveHotTarget_ne_noList (mode : BitVec 6) : menMoveHotTarget mode ≠ .noList := by
  unfold menMoveHotTarget
  split_ifs <;> simp

/-- The dummy of the head comes back. -/
theorem takeDummy_keeps (hs : Shelved tr m c h) (hst : Stock (m.regs h) h)
    (hfirst : (m.chan c).listFirst .hot = .ok (.dummy h)) (hregs : m'.regs h = m.regs h)
    (hname : ∀ b, m'.name b = m.name b) (hlist : (m'.chan c).list = takeOff (m.chan c).list (.dummy h))
    (hcount : (m'.chan c).count = ((m.chan c).decCount .hot).count)
      (hidle : (m.chan c).Idle → (m'.chan c).Idle)
    (hlog : (m'.chan c).log = .returned (.dummy h) :: (m.chan c).log) : Keeps tr c h m m' := by
  obtain ⟨rest, hhot⟩ := Dmachan.listFirst_ok.mp hfirst
  have hrest : (m'.chan c).list .hot = rest := by
    rw [hlist, takeOff, hhot, List.erase_cons_head]
  have hkept : ∀ k, k ≠ .hot → (m'.chan c).list k = (m.chan c).list k := by
    intro k hk
    rw [hlist, takeOff]
    refine List.erase_of_not_mem fun hm => ?_
    rcases hs.filed.owned k _ hm with hr | ⟨_, he⟩
    · exact hst.dummy hr
    · exact hk he
  have hothers : ∀ b, b ≠ .dummy h → ∀ k, ((m'.chan c).list k).count b = ((m.chan c).list k).count b := by
    intro b hb k
    rw [hlist, takeOff, List.count_erase_of_ne hb]
  have hdummy : ∀ k, .dummy h ∈ (m'.chan c).list k → k = .hot := by
    intro k hm
    rw [hlist] at hm
    rcases hs.filed.owned k _ (mem_of_mem_takeOff hm) with hr | ⟨_, he⟩
    · exact absurd hr hst.dummy
    · exact he
  have hfiled : Filed tr (m'.chan c) m'.name (m.regs h) h :=
    hs.filed.dummy hst.dummy hidle hothers hdummy fun b _ => hname b
  have hlinked : ∀ b ∈ m.regs h, (m'.chan c).linked b = (m.chan c).linked b := by
    intro b hb
    have hne : b ≠ .dummy h := fun he => hst.dummy (he ▸ hb)
    refine linked_congr fun k => ?_
    rw [← List.count_pos_iff, hothers b hne, List.count_pos_iff]
  have hcounted : Counted tr (m'.chan c) (m.regs h) h := by
    refine hs.counted.dummyOnly hlinked (fun k hk => ?_) (fun k hk => ?_) fun hh => ?_
    · rw [hkept k hk]
    · rw [hcount, Dmachan.decCount_ne _ hk]
    · have hheld : (m.chan c).count .hot = rest.length + 1 := by
        rw [hs.counted.count .hot hh, held_list (by simp), hhot, List.length_cons]
      have hle := held_le hs.filed hst (n := .hot) fun _ => hs.counted.dummy hh
      rw [held_list (by simp), hhot, List.length_cons] at hle
      have hwrap : (m.regs h).length + 1 < Counter.wrap :=
        Nat.lt_of_le_of_lt (Nat.succ_le_of_lt hst.few) (by decide)
      have hone := hs.counted.dummy hh
      rw [hhot, List.count_cons_self] at hone
      rw [hcount, Dmachan.decCount_same, hheld, Counter.dec_succ (by omega), hrest]
      exact ⟨rfl, by omega⟩
  refine ⟨⟨hregs ▸ hfiled, hregs ▸ hcounted, fun hf => ?_⟩, hregs, fun b _ => hname b⟩
  have hsub := (hs.flown hf).erase (.dummy h)
  rw [hhot, List.erase_cons_head] at hsub
  rw [hlog, hrest]
  exact hsub

theorem menMoveHot_keeps {ts : Nat} {sb : Option BufRef} (hs : Shelved tr m c h) (hst : Stock (m.regs h) h)
    (hact : (m.chan c).active = some h) (hi : Indexed m h) (hc : menMoveHot m c ts = .ok (m', sb)) :
    Keeps tr c h m m' := by
  unfold menMoveHot at hc
  dsimp only at hc
  split_ifs at hc with hnone hhot
  · rw [hact] at hnone
    cases hnone
  · obtain ⟨b, hfirst, hc⟩ := bind_ok.mp hc
    obtain ⟨m₁, h₁, hc⟩ := bind_ok.mp hc
    unfold moveHotTake at h₁
    dsimp only at h₁
    split_ifs at h₁ with hidx
    · obtain ⟨ch, hch, h₁⟩ := bind_ok.mp h₁
      obtain ⟨_, rfl⟩ := Dmachan.listDel_ok.mp hch
      cases h₁
      obtain rfl : b = .dummy h := by
        by_contra hne
        obtain ⟨hb, _⟩ := hs.first hfirst hne
        obtain ⟨sb, rfl⟩ := exists_sb_of_mem_regs hb
        have := hi.sb sb
        omega
      cases hc
      refine takeDummy_keeps hs hst hfirst rfl ?_ ?_ ?_ ?_ ?_
      · exact name_modBuf rfl
      · simp [Dmachan.decCount, Dmachan.record]
      · simp [Dmachan.decCount, Dmachan.record]
      · simp [Dmachan.decCount, Dmachan.record, Dmachan.Idle]
      · simp [Dmachan.decCount, Dmachan.record]
    · obtain ⟨ch, hch, h₁⟩ := bind_ok.mp h₁
      obtain ⟨_, rfl⟩ := Dmachan.listMoveTail_ok.mp hch
      have hne : b ≠ .dummy h := by
        rintro rfl
        exact hidx hi.dummy
      obtain ⟨hb, hat⟩ := hs.first hfirst hne
      have htarget := menMoveHotTarget_ne_hot (m.chan c).mode
      have hshift := Shift.moveLast hat (menMoveHotTarget (m.chan c).mode)
      rw [← place_of_ne (menMoveHotTarget_ne_noList (m.chan c).mode)] at hshift
      have hm : Moves tr c h b .hot (menMoveHotTarget (m.chan c).mode) m m' := by
        cases h₁
        cases hc
        refine ⟨hb, rfl, ?_, ?_, ?_, fun b' he => ?_, fun _ hsub => ?_⟩
        · simpa [Dmachan.record, Dmachan.incCount, Dmachan.decCount, Men.setListname] using hshift
        · simp [Dmachan.record, Dmachan.incCount, Dmachan.decCount, Dmachan.Idle, Men.setListname]
        · rw [name_modBuf rfl]
          simp
        · rw [name_modBuf rfl]
          simp [he]
        · have herase : moveLast (m.chan c).list b (menMoveHotTarget (m.chan c).mode) .hot =
              ((m.chan c).list .hot).erase b := putLast_ne htarget.symm
          have hsub' := hsub.erase b
          rw [← herase] at hsub'
          simpa [Dmachan.record, Dmachan.incCount, Dmachan.decCount, inFlight, Men.setListname] using hsub'
      apply hm.keeps_of_counts hs hst htarget
      cases h₁
      cases hc
      rw [← incCount_decCount _ htarget]
      simp [Dmachan.record, Dmachan.incCount, Dmachan.decCount, Men.setListname]
  · cases hc
    refine ⟨hs.congr rfl (fun _ _ => rfl) (by simp) (by simp) (by simp [Dmachan.Idle]) (.inl (by simp)), rfl,
      fun _ _ => rfl⟩

theorem irqFrame_keeps {ts len tag : Nat} (hs : Shelved tr m c h) (hst : Stock (m.regs h) h)
    (hact : (m.chan c).active = some h) (hi : Indexed m h) (hc : irqFrame m c ts len tag = .ok m') :
    Keeps tr c h m m' := by
  obtain ⟨⟨m₁, sb⟩, h₁, hc⟩ := bind_ok.mp hc
  have hk := menMoveHot_keeps hs hst hact hi h₁
  cases sb with
  | none =>
    cases hc
    exact hk
  | some b =>
    dsimp only at hc
    split_ifs at hc
    · cases hc
      exact hk
    · cases hc
      have hname := name_modBuf (m := m₁) (b := b) (f := fun sb => { sb with
        dmaLength := len, dmaTag := tag, frameNumber := (m₁.chan c).latestFrameNumber }) rfl
      refine ⟨hk.shelved.congr rfl (fun b' _ => hname b') rfl rfl id (.inl rfl), hk.regs, fun b' hb' => ?_⟩
      exact (hname b').trans (hk.names b' hb')

/-- The first grabbed buffer goes to the application; who calls this keeps the counters. -/
theorem lockFirstGrabbed_moves {m₁ : Men} (count : ListName → Nat) (hs : Shelved tr m c h)
    (hst : Stock (m.regs h) h) (hc : lockFirstGrabbed m c = .ok (m₁, b)) :
    Moves tr c h b .grabbed .noList m (m₁.setChan c { m₁.chan c with count := count }) := by
  obtain ⟨b', hfirst, hc⟩ := bind_ok.mp hc
  obtain ⟨ch, hch, hc⟩ := bind_ok.mp hc
  obtain ⟨_, rfl⟩ := Dmachan.listDel_ok.mp hch
  cases hc
  obtain ⟨hb, hat⟩ := hs.first hfirst (hs.first_ne_dummy hfirst (by simp) hst)
  have hshift := Shift.takeOff hat
  refine ⟨hb, rfl, ?_, ?_, ?_, fun b' he => ?_, fun _ hsub => ?_⟩
  · simpa [Men.setListname] using hshift
  · simp [Dmachan.Idle, Men.setListname]
  · simp
  · simp [he]
  · have hkept : takeOff (m.chan c).list b .hot = (m.chan c).list .hot := hat.takeOff_ne
      (by simp [place_grabbed])
    simpa [Men.setListname, hkept] using hsub

theorem lockFirstGrabbed_count {m₁ : Men} (hc : lockFirstGrabbed m c = .ok (m₁, b)) :
    (m₁.chan c).count = (m.chan c).count := by
  obtain ⟨b', _, hc⟩ := bind_ok.mp hc
  obtain ⟨ch, hch, hc⟩ := bind_ok.mp hc
  obtain ⟨_, rfl⟩ := Dmachan.listDel_ok.mp hch
  cases hc
  simp [Men.setListname]

theorem menNextBlocked_keeps {sb : Option BufRef} (hs : Shelved tr m c h) (hst : Stock (m.regs h) h)
    (hc : menNextBlocked m c = .ok (m', sb)) : Keeps tr c h m m' := by
  unfold menNextBlocked at hc
  split_ifs at hc
  · cases hc
    exact .refl hs
  · obtain ⟨⟨m₁, b⟩, h₁, hc⟩ := bind_ok.mp hc
    cases hc
    have hcount : (m₁.chan c).count = (m.chan c).count := lockFirstGrabbed_count h₁
    refine (lockFirstGrabbed_moves _ hs hst h₁).keeps_of_counts hs hst (by simp) ?_
    simp [Dmachan.incCount, Dmachan.decCount, hcount]

/-- One buffer goes from a list it is in to the ready list. -/
theorem moveToReady_moves (count : ListName → Nat) (hb : b ∈ m.regs h) (hat : At (m.chan c).list b n₀.place)
    (hhot : tr.flight → n₀ ≠ .hot) :
    Moves tr c h b n₀ .ready m ((m.setChan c { m.chan c with
      list := moveLast (m.chan c).list b .ready, count := count }).setListname b .ready) := by
  have hshift := Shift.moveLast hat .ready
  refine ⟨hb, rfl, ?_, ?_, ?_, fun b' he => ?_, fun hf hsub => ?_⟩
  · simpa [Men.setListname, place_ready] using hshift
  · simp [Dmachan.Idle, Men.setListname]
  · simp
  · simp [he]
  · have hkept : moveLast (m.chan c).list b .ready .hot = (m.chan c).list .hot := by
      rw [moveLast, putLast_ne (by simp), hat.takeOff_ne]
      intro hp
      exact hhot hf (place_eq_some.mp hp).1
    simpa [Men.setListname, hkept] using hsub

theorem releaseGrabbed_keeps {k : Nat} (hs : Shelved tr m c h) (hst : Stock (m.regs h) h)
    (hc : releaseGrabbed m c k = .ok m') : Keeps tr c h m m' := by
  induction k generalizing m with
  | zero =>
    cases hc
    exact .refl hs
  | succ k ih =>
    obtain ⟨b, hfirst, hc⟩ := bind_ok.mp hc
    obtain ⟨ch, hch, hc⟩ := bind_ok.mp hc
    obtain ⟨_, rfl⟩ := Dmachan.listMoveTail_ok.mp hch
    obtain ⟨hb, hat⟩ := hs.first hfirst (hs.first_ne_dummy hfirst (by simp) hst)
    have hm : Moves tr c h b .grabbed .ready m _ :=
      moveToReady_moves (((m.chan c).incCount .ready).decCount .grabbed).count hb hat fun _ => by simp
    have hk := hm.keeps_of_counts hs hst (by simp) (by
      rw [← incCount_decCount _ (by simp)]
      simp [Men.setListname])
    exact hk.trans (ih hk.shelved (hk.stock hst) hc)

theorem releaseGrabbed_count {k l : Nat} (hcount : (m.chan c).count .grabbed = k + l)
    (hlt : k + l < Counter.wrap) (hc : releaseGrabbed m c k = .ok m') : (m'.chan c).count .grabbed = l := by
  induction k generalizing m with
  | zero =>
    cases hc
    simpa using hcount
  | succ k ih =>
    obtain ⟨b, _, hc⟩ := bind_ok.mp hc
    obtain ⟨ch, hch, hc⟩ := bind_ok.mp hc
    obtain ⟨_, rfl⟩ := Dmachan.listMoveTail_ok.mp hch
    refine ih ?_ (by omega) hc
    have hdec : Counter.dec (k + l + 1) = k + l := Counter.dec_succ (by omega)
    rw [show k + 1 + l = k + l + 1 by omega] at hcount
    simp [Men.setListname, Dmachan.decCount, Dmachan.incCount, hcount, hdec]

/-- The counter of the grabbed list is cleared when one buffer is left. -/
theorem menLastBlocked_keeps {sb : Option BufRef} (hs : Shelved tr m c h) (hst : Stock (m.regs h) h)
    (hc : menLastBlocked m c = .ok (m', sb)) : Keeps tr c h m m' := by
  unfold menLastBlocked at hc
  split_ifs at hc with hzero
  · cases hc
    exact .refl hs
  · obtain ⟨m₁, h₁, hc⟩ := bind_ok.mp hc
    obtain ⟨⟨m₂, b⟩, h₂, hc⟩ := bind_ok.mp hc
    cases hc
    have hk := releaseGrabbed_keeps hs hst h₁
    have hcount : (m₂.chan c).count = (m₁.chan c).count := lockFirstGrabbed_count h₂
    have hone : tr.counts .grabbed → (m₁.chan c).count .grabbed = 1 := by
      intro hg
      have hle := held_le hs.filed hst (n := .grabbed) fun he => by cases he
      rw [← hs.counted.count .grabbed hg] at hle
      have hwrap : (m.regs h).length + 1 < Counter.wrap :=
        Nat.lt_of_le_of_lt (Nat.succ_le_of_lt hst.few) (by decide)
      exact releaseGrabbed_count (by omega) (by omega) h₁
    refine hk.trans ((lockFirstGrabbed_moves _ hk.shelved (hk.stock hst) h₂).keeps hk.shelved (hk.stock hst)
      (fun _ => by simp) (fun _ => ?_) (fun hg => ?_) fun k _ hk hk₀ => ?_)
    · simp [hcount]
    · have hdec : Counter.dec 1 = 0 := Counter.dec_succ (by decide)
      simp [hone hg, hdec]
    · simp [hcount, hk, hk₀]

theorem queueIfLow_keeps (hs : Shelved tr m c h) (hst : Stock (m.regs h) h)
    (hact : (m.chan c).active = some h) (hc : queueIfLow m c = .ok m') : Keeps tr c h m m' := by
  unfold queueIfLow at hc
  split_ifs at hc
  · exact menDmaQueueMax_keeps hs hst hact hc
  · cases hc
    exact .refl hs

/-- A grabbed buffer is given back. -/
theorem unblockGrabbed_keeps (hs : Shelved tr m c h) (hst : Stock (m.regs h) h) (hb : b ∈ m.regs h)
    (hname : (m.buf b).listname = .grabbed) : At (m.chan c).list b (some .grabbed) ∧
      Keeps tr c h m ((m.setListname b .ready).setChan c ((Dmachan.decCount { m.chan c with
        list := moveLast (m.chan c).list b .ready } .grabbed).incCount .ready)) := by
  have hat : At (m.chan c).list b (ListName.place .grabbed) := hs.filed.at_of_name hb hname (by simp)
  have hm : Moves tr c h b .grabbed .ready m _ :=
    moveToReady_moves (((m.chan c).decCount .grabbed).incCount .ready).count hb hat fun _ => by simp
  exact ⟨hat, hm.keeps_of_counts hs hst (by simp) (by simp [Men.setListname])⟩

/-- A locked buffer is given back. -/
theorem unblockLocked_keeps (hs : Shelved tr m c h) (hst : Stock (m.regs h) h) (hb : b ∈ m.regs h)
    (hname : (m.buf b).listname = .noList) : Keeps tr c h m ((m.setListname b .ready).setChan c
      ((((m.chan c).listAddTail b .ready).decCount .noList).incCount .ready)) := by
  have hat : At (m.chan c).list b (ListName.place .noList) := hs.filed.at_of_name hb hname (by simp)
  have hshift := Shift.putLast hat .ready
  have hm : Moves tr c h b .noList .ready m ((m.setListname b .ready).setChan c
      ((((m.chan c).listAddTail b .ready).decCount .noList).incCount .ready)) := by
    refine ⟨hb, rfl, ?_, ?_, ?_, fun b' he => ?_, fun _ hsub => ?_⟩
    · simpa [Dmachan.incCount, Dmachan.decCount, Dmachan.listAddTail, place_ready] using hshift
    · simp [Dmachan.incCount, Dmachan.decCount, Dmachan.listAddTail, Dmachan.Idle]
    · simp
    · simp [he]
    · have hkept : putLast (m.chan c).list b .ready .hot = (m.chan c).list .hot := putLast_ne (by simp)
      simpa [Dmachan.incCount, Dmachan.decCount, Dmachan.listAddTail, hkept] using hsub
  apply hm.keeps_of_counts hs hst (by simp)
  simp [Dmachan.incCount, Dmachan.decCount, Dmachan.listAddTail]

theorem menUnblockBuffer_keeps (hs : Shelved tr m c h) (hst : Stock (m.regs h) h)
    (hact : (m.chan c).active = some h) {sb : Option BufRef} (hb : ∀ b, sb = some b → b ∈ m.regs h)
    (hc : menUnblockBuffer m c sb = .ok m') : Keeps tr c h m m' := by
  cases sb with
  | none =>
    cases hc
    exact .refl hs
  | some b =>
    have hb := hb b rfl
    unfold menUnblockBuffer at hc
    dsimp only at hc
    split at hc
    · cases hc
      exact .refl hs
    · cases hc
      exact .refl hs
    · cases hc
      exact .refl hs
    · rename_i hname
      obtain ⟨ch, hch, hc⟩ := bind_ok.mp hc
      obtain ⟨_, rfl⟩ := Dmachan.listMoveTail_ok.mp hch
      obtain ⟨_, hk⟩ := unblockGrabbed_keeps hs hst hb hname
      refine hk.trans (queueIfLow_keeps hk.shelved (hk.stock hst) ?_ hc)
      simpa [Dmachan.incCount, Dmachan.decCount] using hact
    · rename_i hname
      have hk := unblockLocked_keeps hs hst hb hname
      refine hk.trans (queueIfLow_keeps hk.shelved (hk.stock hst) ?_ hc)
      simpa [Dmachan.incCount, Dmachan.decCount, Dmachan.listAddTail] using hact

/-- A slot is given back, or it is empty. -/
theorem unblockSlot_keeps (hs : Shelved tr m c h) (hst : Stock (m.regs h) h)
    (hact : (m.chan c).active = some h) {sb : Option SbRef} (hb : ∀ b, sb = some b → .sb b ∈ m.regs h)
    (hc : menUnblockBuffer m c (sb.map .sb) = .ok m') :
    Keeps tr c h m m' ∧ (m'.chan c).active = some h := by
  refine ⟨menUnblockBuffer_keeps hs hst hact (fun b he => ?_) hc, ?_⟩
  · obtain ⟨b', rfl, rfl⟩ := Option.map_eq_some_iff.mp he
    exact hb b' rfl
  · exact (menUnblockBuffer_frame hc).self.quiet.control.active.trans hact

theorem unblockAll_keeps (hs : Shelved tr m c h) (hst : Stock (m.regs h) h)
    (hact : (m.chan c).active = some h) {sbs : List (Option SbRef)}
      (hb : ∀ b, some b ∈ sbs → .sb b ∈ m.regs h)
    (hc : unblockAll m c sbs = .ok m') : Keeps tr c h m m' := by
  induction sbs generalizing m with
  | nil =>
    cases hc
    exact .refl hs
  | cons sb sbs ih =>
    obtain ⟨m₁, h₁, hc⟩ := bind_ok.mp hc
    obtain ⟨hk, hact'⟩ := unblockSlot_keeps hs hst hact
      (fun b he => hb b (he ▸ List.mem_cons_self)) h₁
    refine hk.trans (ih hk.shelved (hk.stock hst) hact' (fun b hm => ?_) hc)
    rw [hk.regs]
    exact hb b (List.mem_cons_of_mem _ hm)

/-- What a queue request needs of the place of its buffer. -/
structure Queueable (tr : Trust) (n₀ : ListName) : Prop where
  free : tr.counts .free → n₀ = .free
  other : tr.counts n₀ → n₀ = .free
  ready : tr.counts .ready → n₀ ≠ .ready
  hot : tr.flight → n₀ ≠ .hot

theorem menQueueBufferMove_keeps {b : SbRef} (hs : Shelved tr m c h) (hst : Stock (m.regs h) h)
    (hact : (m.chan c).active = some h) (hb : .sb b ∈ m.regs h)
    (hq : ∀ n₀, At (m.chan c).list (.sb b) n₀.place → Queueable tr n₀)
      (hc : menQueueBufferMove m c b = .ok m') :
    Keeps tr c h m m' := by
  obtain ⟨ch, hch, hc⟩ := bind_ok.mp hc
  obtain ⟨_, rfl⟩ := Dmachan.listMoveTail_ok.mp hch
  obtain ⟨n₀, hat, _⟩ := hs.filed.placed _ hb
  obtain ⟨hfree, hother, hready, hhot⟩ := hq n₀ hat
  have hm : Moves tr c h (.sb b) n₀ .ready m _ :=
    moveToReady_moves (((m.chan c).decCount .free).incCount .ready).count hb hat hhot
  have hk := hm.keeps hs hst (fun hr => (hready hr).symm)
    (fun _ => by simp [Men.setListname, Dmachan.incCount, Dmachan.decCount])
    (fun h₀ => by
      have he := hother h₀
      subst he
      simp [Men.setListname, Dmachan.incCount, Dmachan.decCount])
    (fun k hk hn hn₀ => by
      have hne : k ≠ .free := fun he => hn₀ (he.trans (hfree (he ▸ hk)).symm)
      simp [Men.setListname, Dmachan.incCount, Dmachan.decCount, hn, hne])
  refine hk.trans (menDmaQueueMax_keeps hk.shelved (hk.stock hst) ?_ hc)
  simpa [Men.setListname] using hact

/-- What the removal of a buffer needs of its place, when its `listname` is `n`. -/
def Removable (tr : Trust) (n₀ n : ListName) : Prop := n = n₀ ∨ ¬ tr.counts n₀ ∧ ¬ tr.counts n

theorem dropFromChannel_shelved {m₁ : Men} {i : Nat} {b : SbRef} (hs : Shelved tr m c h)
    (hst : Stock (m.regs h) h)
    (hslot : (m.head h).bufs[i]? = some (some b))
    (hrem : ∀ n₀, At (m.chan c).list (.sb b) n₀.place → Removable tr n₀ (m.name (.sb b)))
    (hflight : tr.flight → .sb b ∈ (m.chan c).list .hot → inFlight (m.chan c).log = [])
    (hc : dropFromChannel m c (.sb b) = .ok m₁) : Shelved tr (m₁.setSlot h i none) c h := by
  have hperm : (m.regs h).Perm (.sb b :: (m.setSlot h i none).regs h) := by
    rw [setSlot_regs_self]
    exact regs_clear hslot
  have hst' : Stock (.sb b :: (m.setSlot h i none).regs h) h := hst.perm hperm
  have hnew : .sb b ∉ (m.setSlot h i none).regs h := (List.nodup_cons.mp hst'.nodup).1
  have hf := hs.filed.perm hperm
  have hcnt := hs.counted.perm hperm
  obtain ⟨n₀, hat, _⟩ := hf.placed (.sb b) List.mem_cons_self
  rcases dropFromChannel_cases hc with ⟨hname, rfl⟩ | ⟨hname, hon, rfl⟩
  · have hat₀ : At (m.chan c).list (.sb b) none :=
      hf.at_of_name (n := .noList) List.mem_cons_self hname (by simp)
    have hshift : Shift (m.chan c).list ((m.chan c).decCount .noList).list (.sb b)
        (ListName.place .noList) none := ⟨hat₀, hat₀, fun _ _ _ => rfl⟩
    have hfiled : Filed tr ((m.chan c).decCount .noList) m.name ((m.setSlot h i none).regs h) h :=
      hf.remove hnew hshift id fun _ _ => rfl
    have hcounted : Counted tr ((m.chan c).decCount .noList) ((m.setSlot h i none).regs h) h :=
      hcnt.remove hf hst' hshift (fun _ => Dmachan.decCount_same _ _) fun k _ hk => Dmachan.decCount_ne _ hk
    refine ⟨?_, ?_, fun hfl => ?_⟩
    · simp only [setSlot_chan, Men.setChan_chan, if_true]
      exact hfiled
    · simp only [setSlot_chan, Men.setChan_chan, if_true]
      exact hcounted
    · simpa [Dmachan.decCount] using hs.flown hfl
  · have hshift := Shift.takeOff hat
    generalize hch : ({ m.chan c with list := takeOff (m.chan c).list (.sb b) } : Dmachan).decCount
      (m.buf (.sb b)).listname = ch at *
    have hlist : ch.list = takeOff (m.chan c).list (.sb b) := by
      rw [← hch]
      rfl
    rw [← hlist] at hshift
    have hidle : (m.chan c).Idle → ch.Idle := by
      rw [← hch]
      exact id
    have hfiled : Filed tr ch m.name ((m.setSlot h i none).regs h) h :=
      hf.remove hnew hshift hidle fun _ _ => rfl
    have hcounted : Counted tr ch ((m.setSlot h i none).regs h) h := by
      refine hcnt.remove hf hst' hshift (fun h₀ => ?_) fun k hk hk₀ => ?_
      · rcases hrem n₀ hat with he | ⟨hn, _⟩
        · rw [← hch, ← he]
          exact Dmachan.decCount_same _ _
        · exact absurd h₀ hn
      · rcases hrem n₀ hat with he | ⟨_, hn⟩
        · rw [← hch]
          exact Dmachan.decCount_ne _ fun h => hk₀ (h.trans he)
        · rw [← hch]
          refine Dmachan.decCount_ne _ fun he => ?_
          rw [he] at hk
          exact hn hk
    have hlog : ch.log = (m.chan c).log := by
      rw [← hch]
      rfl
    refine ⟨?_, ?_, fun hfl => ?_⟩
    · simp only [setSlot_chan, Men.setChan_chan, if_true]
      exact hfiled
    · simp only [setSlot_chan, Men.setChan_chan, if_true]
      exact hcounted
    · simp only [setSlot_chan, Men.setChan_chan, if_true, hlog, hlist]
      by_cases hhot : .sb b ∈ (m.chan c).list .hot
      · rw [hflight hfl hhot]
        exact List.nil_subperm
      · rw [takeOff, List.erase_of_not_mem hhot]
        exact hs.flown hfl

/-- A new buffer of the active head is free. -/
theorem addToFree_shelved {r : IoRange} {b : SbRef} (hs : Shelved tr m c h) (hst : Stock (m.regs h) h)
    (hi : r.subnr.toNat < (m.head h).bufs.length) (hfree : ((m.head h).bufs[r.subnr.toNat]?).join = none)
    (hnew : .sb b ∉ m.regs h) : Shelved tr (addToFree (putUserbuf m r h b) c (.sb b)) c h := by
  generalize hm' : addToFree (putUserbuf m r h b) c (.sb b) = m'
  have hperm : (.sb b :: m.regs h).Perm (m'.regs h) := by
    have hself : m'.regs h = ((m.head h).bufs.set r.subnr.toNat (some b)).filterMap (Option.map .sb) := by
      rw [← hm']
      exact setSlot_regs_self
    rw [hself]
    exact (regs_fill hi hfree).symm
  have hst' : Stock (.sb b :: m.regs h) h := by
    refine ⟨List.nodup_cons.mpr ⟨hnew, hst.nodup⟩, ?_, ?_⟩
    · rw [hperm.length_eq]
      exact Nat.lt_of_le_of_lt (List.length_filterMap_le _ _) (m'.head h).numSb_lt
    · simpa using hst.dummy
  have hlist : (m'.chan c).list = putLast (m.chan c).list (.sb b) .free := by
    rw [← hm']
    simp [addToFree, putUserbuf, Dmachan.incCount, Dmachan.listAddTail]
  have hcount : (m'.chan c).count = ((m.chan c).incCount .free).count := by
    rw [← hm']
    simp [addToFree, putUserbuf, Dmachan.incCount, Dmachan.listAddTail]
  have hlog : (m'.chan c).log = (m.chan c).log := by
    rw [← hm']
    simp [addToFree, putUserbuf, Dmachan.incCount, Dmachan.listAddTail]
  have hidle : (m.chan c).Idle → (m'.chan c).Idle := by
    rw [← hm']
    simp [addToFree, putUserbuf, Dmachan.incCount, Dmachan.listAddTail, Dmachan.Idle]
  have hname : ∀ b', m'.name b' = if b' = .sb b then .free else m.name b' := by
    intro b'
    rw [← hm']
    change ((m.modBuf (.sb b) fun _ => { index := r.subnr, listname := .free, bufLength := r.length }).buf
      b').listname = _
    rw [Men.modBuf_buf]
    split_ifs <;> rfl
  have hon : ¬ On (m.chan c).list (.sb b) := by
    rintro ⟨k, hk⟩
    rcases hs.filed.owned k _ hk with hr | ⟨he, _⟩
    · exact hnew hr
    · cases he
  have hshift : Shift (m.chan c).list (m'.chan c).list (.sb b) none (ListName.place .free) :=
    hlist ▸ Shift.putLast (.of_not_on hon) .free
  have hfiled : Filed tr (m'.chan c) m'.name (.sb b :: m.regs h) h :=
    hs.filed.insert hnew (by simp) (n := .free) (by simp) hlist hidle (by rw [hname, if_pos rfl])
      fun b' hb' => by
        have hne : b' ≠ .sb b := by
          rintro rfl
          exact hnew hb'
        rw [hname, if_neg hne]
  have hcounted : Counted tr (m'.chan c) (.sb b :: m.regs h) h := by
    refine hs.counted.insert hfiled hst' hshift (fun _ => ?_) fun k _ hk => ?_
    · rw [hcount, Dmachan.incCount_same]
    · rw [hcount, Dmachan.incCount_ne _ hk]
  refine ⟨hfiled.perm hperm, hcounted.perm hperm, fun hf => ?_⟩
  rw [hlog, hlist, putLast_ne (by simp)]
  exact hs.flown hf

/-- A mark over a buffer of a channel that is stopped or stopping. -/
theorem mark_shelved (hs : Shelved tr m c h) (hidle : (m.chan c).Idle)
    (hmark : m.name b = .ready ∨ tr.marks (m.name b)) : Shelved tr (m.setListname b .ready) c h where
  filed := by
    have hself : (m.setListname b .ready).name b = .ready := by simp
    have hothers : ∀ b' ∈ m.regs h, b' ≠ b → (m.setListname b .ready).name b' = m.name b' := by
      intro b' _ he
      simp [he]
    exact hs.filed.mark hidle (fun n _ hn => hn ▸ hmark) hself hothers
  counted := hs.counted.congr rfl rfl
  flown := hs.flown

theorem cleanBhTarget_ne_noList (mode : BitVec 6) (n : ListName) : cleanBhTarget mode n ≠ .noList := by
  unfold cleanBhTarget
  split_ifs <;> simp

/-- One slot of the loop of `men_clean_bh`: the buffer is filed with the ones before it. -/
theorem cleanBhAdd_filed {b : SbRef} {past : List BufRef} (hf : Filed tr (m.chan c) m.name past h)
    (hcnt : Counted tr (m.chan c) past h) (hst : Stock (.sb b :: past) h) :
    Filed tr ((cleanBhAdd m c (.sb b)).chan c) (cleanBhAdd m c (.sb b)).name (.sb b :: past) h ∧
      Counted tr ((cleanBhAdd m c (.sb b)).chan c) (.sb b :: past) h := by
  generalize hn : cleanBhTarget (m.chan c).mode (m.buf (.sb b)).listname = n
  have hne : n ≠ .noList := hn ▸ cleanBhTarget_ne_noList _ _
  have hnew : .sb b ∉ past := (List.nodup_cons.mp hst.nodup).1
  have hlist : ((cleanBhAdd m c (.sb b)).chan c).list = putLast (m.chan c).list (.sb b) n := by
    simp [cleanBhAdd, Men.setListname, Dmachan.incCount, Dmachan.listAddTail, hn]
  have hcount : ((cleanBhAdd m c (.sb b)).chan c).count = ((m.chan c).incCount n).count := by
    simp [cleanBhAdd, Men.setListname, Dmachan.incCount, Dmachan.listAddTail, hn]
  have hidle : (m.chan c).Idle → ((cleanBhAdd m c (.sb b)).chan c).Idle := by
    simp [cleanBhAdd, Men.setListname, Dmachan.incCount, Dmachan.listAddTail, Dmachan.Idle]
  have hname : ∀ b', (cleanBhAdd m c (.sb b)).name b' = if b' = .sb b then n else m.name b' := by
    intro b'
    simp [cleanBhAdd, hn]
  have hon : ¬ On (m.chan c).list (.sb b) := by
    rintro ⟨k, hk⟩
    rcases hf.owned k _ hk with hr | ⟨he, _⟩
    · exact hnew hr
    · cases he
  have hshift : Shift (m.chan c).list ((cleanBhAdd m c (.sb b)).chan c).list (.sb b) none n.place := by
    rw [hlist, place_of_ne hne]
    exact Shift.putLast (.of_not_on hon) n
  have hothers : ∀ b' ∈ past, (cleanBhAdd m c (.sb b)).name b' = m.name b' := by
    intro b' hb'
    have he : b' ≠ .sb b := by
      rintro rfl
      exact hnew hb'
    rw [hname, if_neg he]
  have hfiled := hf.insert hnew (by simp) hne hlist hidle (by rw [hname, if_pos rfl]) hothers
  refine ⟨hfiled, hcnt.insert hfiled hst hshift (fun _ => ?_) fun k _ hk => ?_⟩
  · rw [hcount, Dmachan.incCount_same]
  · rw [hcount, Dmachan.incCount_ne _ hk]

theorem cleanBhLoop_filed {slots : List (Option SbRef)} {past : List BufRef}
    (hf : Filed tr (m.chan c) m.name past h) (hcnt : Counted tr (m.chan c) past h)
    (hst : Stock (slots.filterMap (Option.map .sb) ++ past) h) :
    Filed tr ((cleanBhLoop m c slots).chan c) (cleanBhLoop m c slots).name
        (slots.filterMap (Option.map .sb) ++ past) h ∧
      Counted tr ((cleanBhLoop m c slots).chan c) (slots.filterMap (Option.map .sb) ++ past) h := by
  induction slots generalizing m past with
  | nil => exact ⟨hf, hcnt⟩
  | cons slot slots ih =>
    cases slot with
    | none => exact ih hf hcnt hst
    | some b =>
      have hperm : (slots.filterMap (Option.map BufRef.sb) ++ .sb b :: past).Perm
          ((some b :: slots).filterMap (Option.map BufRef.sb) ++ past) := List.perm_middle
      have hst' := hst.perm hperm.symm
      have hst₁ : Stock (.sb b :: past) h :=
        ⟨hst'.nodup.of_append_right, Nat.lt_of_le_of_lt (by simp) hst'.few,
          fun hm => hst'.dummy (List.mem_append_right _ hm)⟩
      obtain ⟨hf₁, hcnt₁⟩ := cleanBhAdd_filed hf hcnt hst₁
      obtain ⟨hf₂, hcnt₂⟩ := ih hf₁ hcnt₁ hst'
      exact ⟨hf₂.perm hperm, hcnt₂.perm hperm⟩

theorem cleanBhLoop_names {slots : List (Option SbRef)} (hb : ∀ sb, some sb ∈ slots → b ≠ .sb sb) :
    (cleanBhLoop m c slots).name b = m.name b := by
  induction slots generalizing m with
  | nil => rfl
  | cons slot slots ih =>
    have hrest : ∀ sb, some sb ∈ slots → b ≠ .sb sb := fun sb hm => hb sb (List.mem_cons_of_mem _ hm)
    cases slot with
    | none => exact ih hrest
    | some b' =>
      have hne := hb b' List.mem_cons_self
      apply (ih hrest).trans
      simp [cleanBhAdd, hne]

/-- A head that is started on a channel is filed anew. -/
theorem startPrepared_filed {startbuf : Nat} (hst : Stock (m.regs h) h) :
    Filed tr ((startPrepared m c h startbuf).chan c) (startPrepared m c h startbuf).name (m.regs h) h ∧
      Counted tr ((startPrepared m c h startbuf).chan c) (m.regs h) h := by
  have hsame : SameRegs m (startCleared m c h) := (unlinkActive_sameRegs m c h).trans (.setChan ..)
  have hperm : (((cleanBhSlots ((startCleared m c h).head h) startbuf).filterMap (Option.map BufRef.sb))
    ++ []).Perm
      (m.regs h) := by
    rw [List.append_nil, Men.regs, ← hsame.slots h]
    exact (cleanBhSlots_perm _ _).filterMap _
  have hl : ∀ n, ((startCleared m c h).chan c).list n = [] := by
    intro n
    simp [startCleared, Dmachan.cleared, Dmachan.clearLists]
  have hcount : ∀ n, ((startCleared m c h).chan c).count n = 0 := by
    intro n
    simp [startCleared, Dmachan.cleared, Dmachan.clearLists]
  obtain ⟨hf, hcnt⟩ := cleanBhLoop_filed (.nil hl) (.nil hl hcount) (hst.perm hperm.symm)
  rw [startPrepared_eq, setLink_chan]
  exact ⟨hf.perm hperm, hcnt.perm hperm⟩

theorem startPrepared_othernames {startbuf : Nat} (hb : b ∉ m.regs h) :
    (startPrepared m c h startbuf).name b = m.name b := by
  have hsame : SameRegs m (startCleared m c h) := (unlinkActive_sameRegs m c h).trans (.setChan ..)
  have hnot : ∀ sb, some sb ∈ cleanBhSlots ((startCleared m c h).head h) startbuf → b ≠ .sb sb := by
    rintro sb hm rfl
    rw [(cleanBhSlots_perm _ _).mem_iff, hsame.slots] at hm
    exact hb (mem_regs.mpr hm)
  rw [startPrepared_eq]
  apply (cleanBhLoop_names hnot).trans
  unfold startCleared unlinkActive
  split
  · rfl
  · split_ifs <;> rfl

/-- The engine is empty when it is started. -/
theorem abortdma_keeps (startbuf : Nat) (hst : Stock (m.regs h) h) :
    Keeps tr c h m (abortdma (startPrepared m c h startbuf) c) := by
  have hp : Filed tr ((startPrepared m c h startbuf).chan c) (startPrepared m c h startbuf).name
    (m.regs h) h ∧
      Counted tr ((startPrepared m c h startbuf).chan c) (m.regs h) h := startPrepared_filed hst
  obtain ⟨hf, hcnt⟩ := hp
  have hregs : (startPrepared m c h startbuf).regs h = m.regs h :=
    congrFun (startPrepared_sameRegs m c h startbuf).regs h
  have hlist : ((abortdma (startPrepared m c h startbuf) c).chan c).list =
      ((startPrepared m c h startbuf).chan c).list := by simp [abortdma, Dmachan.record]
  have hcount : ((abortdma (startPrepared m c h startbuf) c).chan c).count =
      ((startPrepared m c h startbuf).chan c).count := by simp [abortdma, Dmachan.record]
  have hidle : ((startPrepared m c h startbuf).chan c).Idle →
      ((abortdma (startPrepared m c h startbuf) c).chan c).Idle := by
    simp [abortdma, Dmachan.record, Dmachan.Idle]
  refine ⟨⟨?_, ?_, fun _ => ?_⟩, hregs, fun b hb => startPrepared_othernames hb⟩
  · exact hregs.symm ▸ hf.congr hlist hidle fun _ _ => rfl
  · exact hregs.symm ▸ hcnt.congr hlist hcount
  · simp [abortdma, Dmachan.record, inFlight]

theorem startdma_keeps {startbuf : Nat} {hw : StartHw} {ret : Ret} (hst : Stock (m.regs h) h)
    (hc : startdma (startPrepared m c h startbuf) c hw = .ok (m', ret)) : Keeps tr c h m m' := by
  have hk : Keeps tr c h m (abortdma (startPrepared m c h startbuf) c) := abortdma_keeps startbuf hst
  have hact : ((abortdma (startPrepared m c h startbuf) c).chan c).active = some h := by
    have hp : (m.chan c).Primed h ((startPrepared m c h startbuf).chan c) := startPrepared_primed
    obtain ⟨_, _, _, hctl⟩ := hp.control
    simp [abortdma, Dmachan.record, hctl, Dmachan.cleared, Dmachan.clearLists]
  unfold startdma at hc
  cases hw with
  | refused =>
    cases hc
    exact hk
  | running | dead | timedOut =>
    obtain ⟨m₁, h₁, hc⟩ := bind_ok.mp hc
    cases hc
    exact hk.trans (menDmaQueueMax_keeps hk.shelved (hk.stock hst) hact h₁)

/-- Control fields of the channel and what is not on it do not matter. -/
theorem Keeps.control (hk : Keeps tr c h m m') (hregs : m''.regs h = m'.regs h) (hname : m''.name = m'.name)
    (hl : (m''.chan c).list = (m'.chan c).list) (hcount : (m''.chan c).count = (m'.chan c).count)
    (hidle : (m'.chan c).Idle → (m''.chan c).Idle)
    (hlog : inFlight (m''.chan c).log = inFlight (m'.chan c).log ∨ inFlight (m''.chan c).log = []) :
    Keeps tr c h m m'' where
  shelved := hk.shelved.congr hregs (fun b _ => congrFun hname b) hl hcount hidle hlog
  regs := hregs.trans hk.regs
  names b hb := (congrFun hname b).trans (hk.names b hb)

/-- `men_start_dma` without the clean-up that follows a failure: the buffers are filed, and so
they are after `stopdma`, when the engine was not reached. -/
theorem menStartDma_keeps {startbuf : Nat} {hw : StartHw} {current : Tgid} {ret : Ret}
    (hst : Stock (m.regs h) h)
    (hb : menStartDmaBusy m c h = false) (hc : menStartDma m c h startbuf hw current = .ok (m', ret)) :
    (ret = none ∧ Keeps tr c h m m') ∨ ∃ p, Keeps tr c h m p ∧ (m'.chan c).state = .stopping ∧
      m'.regs h = p.regs h ∧ m'.name = p.name ∧ (m'.chan c).list = (p.chan c).list ∧
        (m'.chan c).count = (p.chan c).count := by
  rcases menStartDma_cases hc with ⟨hbusy, _⟩
    | ⟨_, ⟨_, _, rfl, _⟩ | ⟨_, m₁, r, h₁, ⟨e, _, rfl, _⟩ | ⟨_, rfl, rfl⟩⟩⟩
  · rw [hb] at hbusy
    cases hbusy
  · refine .inr ⟨_, abortdma_keeps startbuf hst, ?_⟩
    simp [Men.setState, abortdma, Dmachan.record]
  · refine .inr ⟨m₁, startdma_keeps hst h₁, ?_⟩
    simp [Men.setState]
  · refine .inl ⟨rfl, (startdma_keeps hst h₁).control rfl rfl ?_ ?_ ?_ ?_⟩
    · simp [menStartDmaDone]
    · simp [menStartDmaDone]
    · have hp := (startdma_primed h₁).control
      obtain ⟨_, _, _, hctl⟩ := hp
      simp [hctl, Dmachan.Idle, Dmachan.cleared, Dmachan.clearLists]
    · simp [menStartDmaDone]

theorem fgStartTail_keeps {w : StartWait} {hw : StartHw} {current : Tgid} {ret : Ret}
    (hst : Stock (m.regs w.head) w.head) (hb : menStartDmaBusy m w.chan w.head = false)
    (hc : fgStartTail m w hw current = .ok (m', ret)) : Keeps tr w.chan w.head m m' := by
  have hst' : Stock ((fgStartSetup m w.fgr w.chan).regs w.head) w.head := hst
  rw [← fgStartSetup_busy m w.fgr w.chan w.head] at hb
  rcases fgStartTail_cases hc with ⟨rfl, h₁⟩ | ⟨e, m₁, rfl, h₁, h₂⟩
  · rcases menStartDma_keeps hst' hb h₁ with ⟨_, hk⟩ | ⟨p, hk, hst, _⟩
    · exact ⟨hk.shelved, hk.regs, hk.names⟩
    · have hdone := (fgStartTail_done hc).state
      rw [hst] at hdone
      cases hdone
  · obtain ⟨hstate, _, rfl⟩ := menDmaCleanHalt_ok.mp h₂
    rcases menStartDma_keeps hst' hb h₁ with ⟨he, _⟩ | ⟨p, hk, _, hregs, hname, hl, hcount⟩
    · cases he
    · have hk' : Keeps tr w.chan w.head m p := ⟨hk.shelved, hk.regs, hk.names⟩
      refine hk'.control hregs hname ?_ ?_ (fun _ => .inl ?_) (.inr ?_)
      · simpa [Dmachan.record] using hl
      · simpa [Dmachan.record] using hcount
      · simp
      · simp [Dmachan.record, inFlight]

end MenableDriver
