import MenableDriver.Dma.Runs

/-!
# The links between channels and heads

A channel points to its active head and the head back to the channel. The start of a
channel sets both sides and clears the head's side of the link that was there before;
the release of a head clears the channel's side. A start that takes a head over from
another channel clears nothing on that channel, which keeps pointing to the head.
-/

namespace MenableDriver

set_option autoImplicit false

open Transition

variable {m m' m'' : Men} {o : Outcome} {c : ChanRef} {h : HeadRef}

structure Links (m : Men) : Prop where
  live : ∀ c h, (m.chan c).active = some h → h ∈ m.headsList
  linked : ∀ c, ∀ h ∈ m.headsList, (m.chan c).active = some h ↔ (m.head h).chan = some c

structure SameLinks (m m' : Men) : Prop where
  headsList : m'.headsList = m.headsList
  link : ∀ h, (m'.head h).chan = (m.head h).chan
  active : ∀ c, (m'.chan c).active = (m.chan c).active

/-- The links after a start of the channel `c` with the head `h`. -/
structure Taken (c : ChanRef) (h : HeadRef) (m m' : Men) : Prop where
  headsList : m'.headsList = m.headsList
  link : ∀ h', (m'.head h').chan =
    if h' = h then some c else if (m.chan c).active = some h' then none else (m.head h').chan
  active : ∀ c', (m'.chan c').active = if c' = c then some h else (m.chan c').active

/-- The head is linked to another channel, and both channels are stopped. -/
def Elsewhere (m : Men) (c : ChanRef) (h : HeadRef) : Prop :=
  ∃ c', (m.head h).chan = some c' ∧ c' ≠ c ∧ (m.chan c).state = .stopped ∧ (m.chan c').state = .stopped

/-- The call starts a channel with a head that another channel still points to. -/
def TakesOver (m : Men) : Call → Prop
  | .startTail w _ _ => Elsewhere m w.chan w.head
  | .startRest w _ _ => fgStartRestBusy m w = false ∧ Elsewhere m w.chan w.head
  | _ => False

theorem SameLinks.refl (m : Men) : SameLinks m m := ⟨rfl, fun _ => rfl, fun _ => rfl⟩

theorem SameLinks.trans (h : SameLinks m m') (h' : SameLinks m' m'') : SameLinks m m'' :=
  ⟨h'.headsList.trans h.headsList, fun b => (h'.link b).trans (h.link b),
    fun c => (h'.active c).trans (h.active c)⟩

theorem MoveFrame.sameLinks (hf : MoveFrame c m m') : SameLinks m m' where
  headsList := hf.headsList
  link h := by rw [hf.head]
  active c' := by
    by_cases hc : c' = c
    · subst hc
      exact hf.self.quiet.control.active
    · rw [hf.other c' hc]

theorem SameLinks.setChan {ch : Dmachan} (ha : ch.active = (m.chan c).active) :
    SameLinks m (m.setChan c ch) where
  headsList := rfl
  link _ := rfl
  active c' := by
    by_cases hc : c' = c
    · subst hc
      simpa using ha
    · simp [hc]

theorem Taken.trans_same (ht : Taken c h m m') (hs : SameLinks m' m'') : Taken c h m m'' :=
  ⟨hs.headsList.trans ht.headsList, fun h' => (hs.link h').trans (ht.link h'),
    fun c' => (hs.active c').trans (ht.active c')⟩

theorem SameLinks.trans_taken (hs : SameLinks m m') (ht : Taken c h m' m'') : Taken c h m m'' where
  headsList := ht.headsList.trans hs.headsList
  link h' := by rw [ht.link h', hs.active c, hs.link h']
  active c' := by rw [ht.active c', hs.active c']

theorem unlinkActive_link (m : Men) (c : ChanRef) (h h' : HeadRef) : ((unlinkActive m c h).head h').chan =
    if (m.chan c).active = some h' ∧ h' ≠ h then none else (m.head h').chan := by
  unfold unlinkActive
  cases ha : (m.chan c).active with
  | none => simp
  | some old =>
    by_cases ho : old = h
    · subst ho
      by_cases hh : h' = old
      · simp [hh]
      · simp [Ne.symm hh]
    · by_cases hh : h' = old
      · subst hh
        simp [ho]
      · simp [ho, hh, Ne.symm hh]

theorem startCleared_taken (m : Men) (c : ChanRef) (h : HeadRef) :
    Taken c h m ((startCleared m c h).setLink h (some c)) where
  headsList := by
    unfold startCleared unlinkActive
    split
    · rfl
    · split_ifs <;> rfl
  link h' := by
    rw [setLink_link]
    by_cases hh : h' = h
    · simp [hh]
    · simp [hh, startCleared, unlinkActive_link]
  active c' := by
    by_cases hc : c' = c
    · subst hc
      simp [startCleared, Dmachan.cleared, Dmachan.clearLists]
    · simp [startCleared, hc]

theorem SameLinks.setLink (hs : SameLinks m m') (h : HeadRef) (l : Option ChanRef) :
    SameLinks (m.setLink h l) (m'.setLink h l) where
  headsList := hs.headsList
  link h' := by rw [setLink_link, setLink_link, hs.link h']
  active := hs.active

theorem startPrepared_taken (m : Men) (c : ChanRef) (h : HeadRef) (startbuf : Nat) :
    Taken c h m (startPrepared m c h startbuf) := by
  rw [startPrepared_eq]
  exact (startCleared_taken m c h).trans_same ((cleanBhLoop_frame _).sameLinks.setLink h (some c))

theorem menStartDma_links {startbuf : Nat} {hw : StartHw} {current : Tgid} {ret : Ret}
    (hc : menStartDma m c h startbuf hw current = .ok (m', ret)) :
    menStartDmaBusy m c h = true ∧ m' = m ∨ menStartDmaBusy m c h = false ∧ Taken c h m m' := by
  have hp := startPrepared_taken m c h startbuf
  have abort : ∀ m₀ : Men, SameLinks m₀ (abortdma m₀ c) := fun _ => .setChan rfl
  rcases menStartDma_cases hc with ⟨hb, rfl, _⟩
    | ⟨hb, ⟨_, _, rfl, _⟩ | ⟨_, m₁, r, h₁, ⟨e, _, rfl, _⟩ | ⟨_, rfl, _⟩⟩⟩
  · exact .inl ⟨hb, rfl⟩
  · exact .inr ⟨hb, hp.trans_same (.setChan rfl)⟩
  · have hs := (abort _).trans (startdma_frame h₁).sameLinks
    exact .inr ⟨hb, (hp.trans_same hs).trans_same (.setChan rfl)⟩
  · have hs := (abort _).trans (startdma_frame h₁).sameLinks
    refine .inr ⟨hb, (hp.trans_same hs).trans_same ⟨rfl, fun _ => rfl, fun c' => ?_⟩⟩
    by_cases hc : c' = c
    · subst hc
      simp [menStartDmaDone]
    · simp [menStartDmaDone, hc]

theorem fgStartSetup_sameLinks (m : Men) (fgr : FgCtrl) (c : ChanRef) :
    SameLinks m (fgStartSetup m fgr c) := .setChan rfl

theorem fgStartSetup_state (m : Men) (fgr : FgCtrl) (c c' : ChanRef) :
    ((fgStartSetup m fgr c).chan c').state = (m.chan c').state := by
  by_cases hc : c' = c
  · subst hc
    simp [fgStartSetup]
  · simp [fgStartSetup, hc]

theorem fgStartSetup_busy (m : Men) (fgr : FgCtrl) (c : ChanRef) (h : HeadRef) :
    menStartDmaBusy (fgStartSetup m fgr c) c h = menStartDmaBusy m c h := by
  unfold menStartDmaBusy
  simp only [fgStartSetup_state]
  rfl

theorem fgStartTail_links {w : StartWait} {hw : StartHw} {current : Tgid} {ret : Ret}
    (hc : fgStartTail m w hw current = .ok (m', ret)) :
    menStartDmaBusy m w.chan w.head = true ∧ SameLinks m m' ∨
      menStartDmaBusy m w.chan w.head = false ∧ Taken w.chan w.head m m' := by
  have hset := fgStartSetup_sameLinks m w.fgr w.chan
  have start : ∀ {m₁ : Men} {r : Ret}, menStartDma (fgStartSetup m w.fgr w.chan) w.chan w.head
      w.fgr.startBuf.toNat hw current = .ok (m₁, r) →
      menStartDmaBusy m w.chan w.head = true ∧ SameLinks m m₁ ∨
        menStartDmaBusy m w.chan w.head = false ∧ Taken w.chan w.head m m₁ := by
    intro m₁ r h₁
    rw [← fgStartSetup_busy m w.fgr w.chan w.head]
    rcases menStartDma_links h₁ with ⟨hb, rfl⟩ | ⟨hb, ht⟩
    · exact .inl ⟨hb, hset⟩
    · exact .inr ⟨hb, hset.trans_taken ht⟩
  rcases fgStartTail_cases hc with ⟨_, h₁⟩ | ⟨e, m₁, _, h₁, h₂⟩
  · exact start h₁
  · obtain ⟨_, _, rfl⟩ := menDmaCleanHalt_ok.mp h₂
    have hs : SameLinks m₁ (m₁.setChan w.chan { (m₁.chan w.chan).record .stopdma with
        timer := false, state := .stopped, transferTodo := 0 }) := .setChan rfl
    exact (start h₁).imp (And.imp_right fun h => h.trans hs) (And.imp_right fun h => h.trans_same hs)

theorem SameLinks.links (hs : SameLinks m m') (hl : Links m) : Links m' where
  live c h ha := hs.headsList ▸ hl.live c h (hs.active c ▸ ha)
  linked c h hh := by
    rw [hs.active c, hs.link h]
    exact hl.linked c h (hs.headsList ▸ hh)

/-- The head is linked to no other channel. -/
theorem Taken.links (ht : Taken c h m m') (hh : h ∈ m.headsList)
    (hfree : ∀ c', (m.head h).chan = some c' → c' = c) (hl : Links m) : Links m' where
  live c' h' ha := by
    rw [ht.headsList]
    rw [ht.active c'] at ha
    by_cases hc : c' = c
    · rw [if_pos hc] at ha
      cases ha
      exact hh
    · rw [if_neg hc] at ha
      exact hl.live c' h' ha
  linked c' h' hh' := by
    rw [ht.headsList] at hh'
    have hold := hl.linked c' h' hh'
    have hown := hl.linked c h' hh'
    rw [ht.active c', ht.link h']
    by_cases hc : c' = c <;> by_cases heq : h' = h
    · simp [hc, heq]
    · rw [if_pos hc, if_neg heq, hc]
      apply iff_of_false (fun he => heq (Option.some.inj he).symm)
      split_ifs with ha
      · simp
      · exact fun hc => ha (hown.mpr hc)
    · rw [if_neg hc, if_pos heq]
      refine iff_of_false (fun ha => hc (hfree c' ?_)) (fun he => hc (Option.some.inj he).symm)
      exact heq ▸ hold.mp ha
    · rw [if_neg hc, if_neg heq]
      split_ifs with ha
      · refine iff_of_false (fun ha' => hc ?_) (by simp)
        exact Option.some.inj ((hold.mp ha').symm.trans (hown.mp ha))
      · exact hold

/-- A head that is linked to another channel keeps that channel's pointer. -/
theorem Taken.breaks {c' : ChanRef} (ht : Taken c h m m') (hh : h ∈ m.headsList)
    (hlink : (m.head h).chan = some c') (hne : c' ≠ c) (hl : Links m) : ¬ Links m' := by
  intro hl'
  have ha : (m'.chan c').active = some h := by
    rw [ht.active c', if_neg hne]
    exact (hl.linked c' h hh).mpr hlink
  have hback := (hl'.linked c' h (hl'.live c' h ha)).mp ha
  rw [ht.link h, if_pos rfl] at hback
  exact hne (Option.some.inj hback).symm

/-- The links, and every head is in the list once. -/
structure Linked (m : Men) : Prop extends Links m where
  nodup : m.headsList.Nodup

theorem menReleaseBufHead_linked {h : HeadRef} (hl : Linked m) (hh : h ∈ m.headsList)
    (hc : menReleaseBufHead m h = (m', none)) : Linked m' := by
  rcases menReleaseBufHead_cases hc with ⟨_, hne⟩ | ⟨_, ⟨hlink, rfl⟩ | ⟨c, hlink, _, rfl⟩⟩
  · exact absurd rfl hne
  · refine ⟨⟨fun c' h' ha => ?_, fun c' h' hh' => hl.linked c' h' (List.mem_of_mem_erase hh')⟩,
      hl.nodup.erase h⟩
    have hne : h' ≠ h := by
      rintro rfl
      have := (hl.linked c' h' hh).mp ha
      rw [hlink] at this
      cases this
    exact (List.mem_erase_of_ne hne).mpr (hl.live c' h' ha)
  · have hact := (hl.linked c h hh).mpr hlink
    refine ⟨⟨fun c' h' ha => ?_, fun c' h' hh' => ?_⟩, hl.nodup.erase h⟩
    · by_cases hcc : c' = c
      · simp [hcc] at ha
      · have ha' : (m.chan c').active = some h' := by simpa [hcc] using ha
        have hne : h' ≠ h := by
          rintro rfl
          exact hcc (Option.some.inj (((hl.linked c' h' hh).mp ha').symm.trans hlink))
        exact (List.mem_erase_of_ne hne).mpr (hl.live c' h' ha')
    · obtain ⟨hne, hmem⟩ := (hl.nodup.mem_erase_iff).mp hh'
      by_cases hcc : c' = c
      · subst hcc
        refine iff_of_false (by simp) fun hlink' => hne ?_
        exact Option.some.inj (((hl.linked c' h' hmem).mpr hlink').symm.trans hact)
      · simpa [hcc] using hl.linked c' h' hmem

theorem Linked.congr {m m' : Men} (hl : Linked m) (hs : SameLinks m m') : Linked m' :=
  ⟨hs.links hl.toLinks, hs.headsList ▸ hl.nodup⟩

theorem menCleanupMem_linked (hl : Linked m) (hc : menCleanupMem m m.headsList = .ok m') : Linked m' :=
  menCleanupMem_keeps (fun hh h₁ hl => (menReleaseBufHead_linked hl hh h₁).congr ⟨rfl, fun _ => rfl, fun _ => rfl⟩)
    hl.nodup hl hc

theorem menCreateBufHead_linked {subbufs : Int} {mem : Option HeadRef} {r : Except Errno Nat}
    (hl : Linked m) (hc : menCreateBufHead m subbufs mem = .ok (m', r)) : Linked m' := by
  rcases menCreateBufHead_cases hc with rfl | ⟨h, hd, hu, hlink, _, rfl⟩
  · exact hl
  · have hnew : h ∉ m.headsList := by
      simp only [Men.headInUse, Bool.or_eq_false_iff, decide_eq_false_iff_not] at hu
      exact hu.1
    refine ⟨⟨fun c' h' ha => List.mem_append_left _ (hl.live c' h' ha), fun c' h' hh' => ?_⟩, ?_⟩
    · by_cases hh : h' = h
      · subst hh
        apply iff_of_false (fun ha => hnew (hl.live c' h' ha))
        simp [hlink]
      · have hmem : h' ∈ m.headsList := by simpa [hh] using hh'
        simpa [hh] using hl.linked c' h' hmem
    · exact List.nodup_append.mpr ⟨hl.nodup, by simp, by
        rintro a ha b hb rfl
        exact hnew (List.mem_singleton.mp hb ▸ ha)⟩

/-- The calls that change no link. -/
def Call.keepsLinks : Call → Bool
  | .createHead .. | .freeHead _ | .cleanupMem | .startTail .. | .startRest .. => false
  | _ => true

theorem chanStep_active {k : Call} {ch ch' : Dmachan} (hk : k.keepsLinks = true)
    (h : ChanStep c k o ch ch') : ch'.active = ch.active := by
  cases h with
  | still _ hq => exact hq.control.active
  | frame hq => exact hq.control.active
  | startDone hs | startFailed hs => cases hs <;> cases hk
  | stopped h | closed h => cases h <;> rfl
  | irqScanned _ h => exact h.quiet.control.active
  | released hs => rcases hs with ⟨n, rfl⟩ | rfl <;> cases hk
  | _ => rfl

theorem call_sameLinks {k : Call} (hk : k.keepsLinks = true) (h : call m k = .ok (m', o)) :
    SameLinks m m' := by
  have hact := fun c => chanStep_active hk (call_chan h c)
  cases hb : k.keepsBoard with
  | true =>
    have hs := call_sameBoard hb h
    exact ⟨hs.headsList, fun h => by rw [hs.head], hact⟩
  | false =>
    cases k with
    | addBuffer r mem =>
      obtain ⟨⟨m₁, ret⟩, h₁, h⟩ := bind_ok.mp h
      cases h
      rcases menCreateUserbuf_cases h₁ with rfl | ⟨hd, b, _, _, _, _, _, ⟨_, rfl⟩ | ⟨c', _, rfl⟩⟩
      · exact .refl _
      · exact ⟨rfl, fun _ => by simp [putUserbuf], hact⟩
      · exact ⟨rfl, fun _ => by simp [addToFree, putUserbuf], hact⟩
    | delBuffer headnr index =>
      obtain ⟨⟨m₁, ret⟩, h₁, h⟩ := bind_ok.mp h
      cases h
      rcases menIoctlDelVirtUserBuffer_cases h₁ with rfl | ⟨hd, m₂, _, h₂, rfl⟩
      · exact .refl _
      · rcases menFreeUserbuf_cases h₂ with ⟨_, hne⟩ | ⟨b, _, _, _, _, ⟨_, rfl⟩ | ⟨c', m₃, _, _, h₃, rfl⟩⟩
        · exact absurd rfl hne
        · exact ⟨rfl, fun _ => by simp, hact⟩
        · rcases dropFromChannel_cases h₃ with ⟨_, rfl⟩ | ⟨_, _, rfl⟩
          · exact ⟨rfl, fun _ => by simp, hact⟩
          · exact ⟨rfl, fun _ => by simp, hact⟩
    | destroySb b =>
      obtain ⟨m₁, h₁, h⟩ := bind_ok.mp h
      cases h
      obtain ⟨_, rfl⟩ := menDestroySb_ok.mp h₁
      exact ⟨rfl, fun _ => rfl, fun _ => rfl⟩
    | destroyHead hd =>
      obtain ⟨m₁, h₁, h⟩ := bind_ok.mp h
      cases h
      obtain ⟨_, rfl⟩ := menFreeBufHead_ok.mp h₁
      exact ⟨rfl, fun _ => rfl, fun _ => rfl⟩
    | createHead | freeHead | cleanupMem | startTail | startRest => cases hk
    | _ => cases hb

theorem Elsewhere.not_busy (he : Elsewhere m c h) : menStartDmaBusy m c h = false := by
  obtain ⟨c', hlink, _, hs, hs'⟩ := he
  simp [menStartDmaBusy, hlink, hs, hs']

/-- A start that is not busy either takes the head from another channel, or leaves the
links in order. -/
theorem start_links {w : StartWait} {hw : StartHw} {current : Tgid} {ret : Ret} (hl : Linked m)
    (hh : w.head ∈ m.headsList) (hc : fgStartTail m w hw current = .ok (m', ret)) :
    (¬ Elsewhere m w.chan w.head → Linked m') ∧ (Links m' → ¬ Elsewhere m w.chan w.head) := by
  rcases fgStartTail_links hc with ⟨hb, hs⟩ | ⟨hb, ht⟩
  · refine ⟨fun _ => hl.congr hs, fun _ he => ?_⟩
    exact absurd (hb.symm.trans he.not_busy) (by simp)
  · constructor
    · intro he
      refine ⟨ht.links hh (fun c' hlink => ?_) hl.toLinks, ht.headsList ▸ hl.nodup⟩
      by_contra hne
      simp only [menStartDmaBusy, hlink, Bool.or_eq_false_iff, decide_eq_false_iff_not, not_not] at hb
      exact he ⟨c', hlink, hne, hb.1, hb.2⟩
    · rintro hl' ⟨c', hlink, hne, _⟩
      exact ht.breaks hh hlink hne hl.toLinks hl'

theorem call_linked {k : Call} (hl : Linked m) (h : call m k = .ok (m', o)) :
    (¬ TakesOver m k → Linked m') ∧ (Links m' → ¬ TakesOver m k) := by
  by_cases hk : k.keepsLinks = true
  · have hs := call_sameLinks hk h
    refine ⟨fun _ => hl.congr hs, fun _ ht => ?_⟩
    cases k <;> first | exact ht.elim | cases hk
  · cases k with
    | createHead subbufs mem =>
      obtain ⟨⟨m₁, r⟩, h₁, h⟩ := bind_ok.mp h
      cases h
      exact ⟨fun _ => menCreateBufHead_linked hl h₁, fun _ => id⟩
    | freeHead headnr =>
      obtain ⟨ret, h₁⟩ := call_freeHead h
      refine ⟨fun _ => ?_, fun _ => id⟩
      rcases menIoctlFreeVirtBuffer_cases h₁ with rfl | ⟨hd, m₁, hh, h₂, rfl⟩
      · exact hl
      · exact (menReleaseBufHead_linked hl (meGetBufHead_mem hh) h₂).congr ⟨rfl, fun _ => rfl, fun _ => rfl⟩
    | cleanupMem =>
      obtain ⟨m₁, h₁, h⟩ := bind_ok.mp h
      cases h
      exact ⟨fun _ => menCleanupMem_linked hl h₁, fun _ => id⟩
    | startTail w hw current =>
      simp only [call] at h
      split_ifs at h with hhead
      obtain ⟨⟨m₁, ret⟩, h₁, h⟩ := bind_ok.mp h
      cases h
      exact start_links hl (meGetBufHead_mem hhead) h₁
    | startRest w hw current =>
      simp only [call] at h
      split_ifs at h with hb
      · cases h
        exact ⟨fun _ => hl, fun _ ht => absurd (hb.symm.trans ht.1) (by simp)⟩
      · obtain ⟨⟨m₁, ret⟩, h₁, h⟩ := bind_ok.mp h
        cases h
        have hb' : fgStartRestBusy m w = false := by simpa using hb
        have hhead : meGetBufHead m w.fgr.head = some w.head := by
          simp only [fgStartRestBusy, Bool.or_eq_false_iff, decide_eq_false_iff_not, not_not] at hb'
          exact hb'.2
        obtain ⟨h₂, h₃⟩ := start_links hl (meGetBufHead_mem hhead) h₁
        exact ⟨fun ht => h₂ fun he => ht ⟨hb', he⟩, fun hl' ht => h₃ hl' ht.2⟩
    | _ => exact absurd rfl hk

/-- The event starts a channel with a head that another channel still points to. -/
def HeadTaken (s : Sys) : Event → Prop
  | .run k => TakesOver s.men k
  | .irqEnter .. => False

theorem step_linked {s t : Sys} {e : Event} (hl : Linked s.men) (h : step s e = .ok t) :
    (¬ HeadTaken s e → Linked t.men) ∧ (Links t.men → ¬ HeadTaken s e) := by
  cases e with
  | irqEnter c newFrames =>
    obtain ⟨_, _, rfl⟩ := step_irqEnter h
    exact ⟨fun _ => hl, fun _ => id⟩
  | run k =>
    obtain ⟨m, o, hcall, _, rfl⟩ := step_run h
    exact call_linked hl hcall

section Example

def acquire (chan head : Nat) : FgCtrl :=
  { mode := 0x10, timeout := 0, transferTodo := 5, chan := chan, head := head, startBuf := 0, dmaDir := 0 }

/-- The head `hd` with the number `head` is started on the channel and stopped. -/
def startStop (chan head : Nat) (hd : HeadRef) : List Event :=
  [.run (.start (acquire chan head) 0), .run (.startTail ⟨acquire chan head, hd, chan⟩ .running 1),
    .run (.stop chan), .run (.workTake chan), .run (.workRun chan), .run (.cleanScan chan)]

/-- After an acquisition on each of two channels, the head of channel 0 is started on
channel 1, and then channel 0 with the other head. -/
def headOnTwoChannels : List Event :=
  [.run (.createHead 1 (some 7)),
    .run (.addBuffer { start := 0, length := 4096, subnr := 0, headnr := 0 } (some 3)),
    .run (.createHead 1 (some 8)),
    .run (.addBuffer { start := 0, length := 4096, subnr := 0, headnr := 1 } (some 4))] ++
    startStop 0 0 7 ++ startStop 1 1 8 ++
    [.run (.start (acquire 1 0) 0), .run (.startTail ⟨acquire 1 0, 7, 1⟩ .running 1),
      .run (.start (acquire 0 1) 0), .run (.startTail ⟨acquire 0 1, 8, 0⟩ .running 1)]

end Example

end MenableDriver
