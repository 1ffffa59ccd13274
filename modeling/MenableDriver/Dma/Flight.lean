import MenableDriver.Dma.BufferLists
import MenableDriver.Dma.QueueState

/-!
# What the engine has is not destroyed

A buffer is in flight from `queue_sb` until it comes back or the engine is halted. In a
careful run what is in flight is hot and belongs to the active head of its channel, so it is
not among the buffers that wait to be destroyed. The release of a head asks only whether the
channel is started: between a stop and the work that halts the engine it lets the head go.
-/

namespace MenableDriver

set_option autoImplicit false

open Transition Shelves

variable {tr : ChanRef → Trust} {m m' : Men} {s t : Sys} {o : Outcome} {c : ChanRef}
    {h : HeadRef} {b : BufRef}

/-- The engine of a channel was given the buffer, has not given it back and was not halted. -/
def InFlight (m : Men) (b : BufRef) : Prop := ∃ c, b ∈ inFlight (m.chan c).log

/-- A buffer is destroyed, alone or with its head, while an engine has it. -/
def DestroysInFlight (s : Sys) : Event → Prop
  | .run (.destroySb b) => InFlight s.men (.sb b)
  | .run (.destroyHead h) => InFlight s.men (.dummy h) ∨ ∃ b ∈ s.men.regs h, InFlight s.men b
  | _ => False

/-- A queue request takes a hot buffer, or marks one while its channel is stopping. -/
def QueuesHot (s : Sys) : Event → Prop
  | .run (.queueCheck headIdx bufIdx) =>
    ∃ h b c, queueRequest s.men headIdx bufIdx = some (h, b) ∧ (s.men.head h).chan = some c ∧
      (s.men.chan c).state = .stopping ∧ s.men.name (.sb b) = .hot
  | .run (.queueAct headIdx bufIdx) =>
    ∃ h b, queueRequest s.men headIdx bufIdx = some (h, b) ∧ s.men.name (.sb b) = .hot
  | _ => False

/-- The head is linked to a channel that runs still, though it is not started, and has hot buffers. -/
def Heated (m : Men) (h : HeadRef) : Prop :=
  ∃ c, (m.head h).chan = some c ∧ (m.chan c).state ≠ .stopped ∧ (m.chan c).state ≠ .started ∧
    (m.chan c).list .hot ≠ []

/-- A head is released under an engine that was not halted yet. -/
def ReleasesHot (s : Sys) : Event → Prop
  | .run (.freeHead headnr) => ∃ h, meGetBufHead s.men headnr = some h ∧ Heated s.men h
  | .run .cleanupMem => ∃ h ∈ s.men.headsList, Heated s.men h
  | _ => False

/-! ## The trust in a channel -/

/-- A channel that is idle and has nothing in flight may have marks over all buffers, in any other
what is in flight is hot and called hot. -/
def busyTrust : Trust := ⟨fun n => n ≠ .hot, fun _ => False, True⟩

def idleTrust : Trust := ⟨fun _ => True, fun _ => False, False⟩

def Dmachan.Empty (ch : Dmachan) : Prop := ch.Idle ∧ inFlight ch.log = []

open Classical in
noncomputable def flightTrust (m : Men) (c : ChanRef) : Trust :=
  if (m.chan c).Empty then idleTrust else busyTrust

theorem flightTrust_empty (he : (m.chan c).Empty) : flightTrust m c = idleTrust := if_pos he

theorem flightTrust_busy (he : ¬ (m.chan c).Empty) : flightTrust m c = busyTrust := if_neg he

theorem flightTrust_counts (n : ListName) : ¬ (flightTrust m c).counts n := by
  by_cases he : (m.chan c).Empty
  · rw [flightTrust_empty he]
    exact id
  · rw [flightTrust_busy he]
    exact id

theorem Shelved.mono {tr tr' : Trust} (hs : Shelved tr m c h)
    (hm : (m.chan c).Idle → ∀ n, tr.marks n → tr'.marks n) (hc : ∀ n, tr'.counts n → tr.counts n)
    (hf : tr'.flight → tr.flight) : Shelved tr' m c h where
  filed := by
    refine ⟨hs.filed.clear, hs.filed.owned, fun b hb => ?_⟩
    obtain ⟨n, hat, hn⟩ := hs.filed.placed b hb
    exact ⟨n, hat, hn.imp_right fun h => ⟨h.1, hm h.1 n h.2.1, h.2.2⟩⟩
  counted := ⟨fun n hn => hs.counted.count n (hc n hn), fun hn => hs.counted.dummy (hc _ hn)⟩
  flown h := hs.flown (hf h)

/-- In a channel that is not empty a hot buffer is called hot. -/
theorem Shelved.name_hot (hs : Shelved busyTrust m c h) (hb : b ∈ m.regs h)
    (hhot : b ∈ (m.chan c).list .hot) : m.name b = .hot := by
  obtain ⟨n, hat, hn⟩ := hs.filed.placed b hb
  obtain ⟨rfl, -⟩ := place_eq_some.mp (hat.mem_iff.mp hhot)
  rcases hn with hn | ⟨-, hm, -⟩
  · exact hn
  · exact absurd rfl hm

/-! ## The engine of a channel -/

theorem inFlight_append {es log : List HwEvent} (hes : ∀ st b, HwEvent.queued st b ∉ es)
    (h : inFlight log = []) : inFlight (es ++ log) = [] := by
  induction es with
  | nil => exact h
  | cons e es ih =>
    have hrest := ih fun st b hb => hes st b (List.mem_cons_of_mem _ hb)
    cases e with
    | queued st b => exact absurd List.mem_cons_self (hes st b)
    | returned b => simp [inFlight, hrest]
    | bound => exact hrest
    | stopdma | abortdma => rfl

theorem Dmachan.Unqueued.landed {ch ch' : Dmachan} (h : ch.Unqueued ch') (he : inFlight ch.log = []) :
    inFlight ch'.log = [] := by
  obtain ⟨es, hes, hno⟩ := h
  rw [hes]
  exact inFlight_append hno he

/-- A call that moves buffers does so on a channel that has a head. -/
theorem listCall_active {k : Call} (hl : Linked s.men) (hr : s.ready k = true) (h : ListCall s.men m c k) :
    (s.men.chan c).active ≠ none := by
  have active : ∀ {headnr h}, meGetBufHead s.men headnr = some h → (s.men.head h).chan = some c →
      (s.men.chan c).active ≠ none := by
    intro headnr h hh hlink
    rw [(hl.linked c h (meGetBufHead_mem hh)).mpr hlink]
    exact Option.some_ne_none h
  cases h with
  | act hq hlink _ => exact active (queueRequest_some.mp hq).1 hlink
  | unlockAll hh hlink _ | unlock hh hlink _ _ | getLast hh hlink _ | getNext hh hlink _ =>
    exact active hh hlink
  | queueMax => cases hr

theorem quiet_headless {k : Call} (hl : Linked s.men) (hr : s.ready k = true) (hk : k.quiet = true)
    (hf : ∀ c ts len tag, k ≠ .irqFrame c ts len tag) (hcall : call s.men k = .ok (m, o))
    (hnone : (s.men.chan c).active = none) : (m.chan c).log = (s.men.chan c).log := by
  rcases call_quiet hk hf hcall with ⟨c', hlist⟩ | hlist
  · have hne : c ≠ c' := by
      rintro rfl
      exact listCall_active hl hr hlist hnone
    rw [hlist.frame.other c hne]
  · obtain ⟨_, _, _, he⟩ := hlist c
    rw [he]

/-- What a call does to the engine of a channel: an idle one that is empty stays so, and one
without a head, it is halted, it is to be halted, or it is started. -/
inductive EngineStep (c : ChanRef) (k : Call) (o : Outcome) (ch ch' : Dmachan) : Prop where
  | kept : ch'.state = ch.state → ch'.active = ch.active ∨ ch'.active = none →
      (ch.Idle ∨ ch.active = none → inFlight ch.log = [] → inFlight ch'.log = []) → EngineStep c k o ch ch'
  | halted : ch'.state = .stopped → inFlight ch'.log = [] → EngineStep c k o ch ch'
  | stopping : ch'.state = .stopping → ch'.log = ch.log → EngineStep c k o ch ch'
  | started {w current} : k.Starts w current → w.chan = c → o = .done none → ch'.state = .started →
      ch'.active = some w.head → EngineStep c k o ch ch'

theorem fgStartTail_halted {w : StartWait} {hw : StartHw} {current : Tgid} {e : Errno}
    (h : fgStartTail m w hw current = .ok (m', some e)) : inFlight (m'.chan w.chan).log = [] := by
  rcases fgStartTail_cases h with ⟨he, _⟩ | ⟨_, m₁, _, _, h₂⟩
  · cases he
  · obtain ⟨_, _, rfl⟩ := menDmaCleanHalt_ok.mp h₂
    simp [Dmachan.record, inFlight]

theorem call_engine {k : Call} (ht : TidyBy tr s) (hi : StopsDone s) (hr : s.ready k = true)
    (hcall : call s.men k = .ok (m, o)) (hG : ¬ FeedsStopped s (.run k)) :
    EngineStep c k o (s.men.chan c) (m.chan c) := by
  have hs := call_chan hcall c
  -- the handler of a channel runs only while it has a head
  have served : k.handler = some c → (s.men.chan c).active ≠ none := fun hk => ht.served c (handler_irq hr hk)
  generalize hch : s.men.chan c = ch at hs
  generalize hch' : m.chan c = ch' at hs ⊢
  cases hs with
  | still hk hq =>
    subst hch hch'
    refine .kept hq.control.state (.inl hq.control.active) fun hst he => ?_
    by_cases hf : ∀ c' ts len tag, k ≠ .irqFrame c' ts len tag
    · rcases hst with hst | hnone
      · exact (quiet_unqueued hi hr hcall hG hk hst.symm).landed he
      · rw [quiet_headless ht.orderly.linked hr hk hf hcall hnone]
        exact he
    · push Not at hf
      obtain ⟨c', ts, len, tag, rfl⟩ := hf
      by_cases hc : c = c'
      · subst hc
        exact (irqFrame_unqueued (call_irqFrame hcall)).landed he
      · rw [(irqFrame_frame (call_irqFrame hcall)).other c hc]
        exact he
  | frame hq =>
    subst hch hch'
    exact .kept hq.control.state (.inl hq.control.active) fun _ he =>
      (irqFrame_unqueued (call_irqFrame hcall)).landed he
  | startDone hk hw h => exact .started hk hw rfl h.state h.active
  | startFailed hk hw h =>
    subst hch' hw
    rcases hk.runs hcall with ⟨_, ho⟩ | ⟨hw, ret, _, h₁, ho⟩
    · cases ho
    · cases ret with
      | none => cases ho
      | some e => exact .halted h.state (fgStartTail_halted h₁)
  | resumeHalted | timedOut | workHalted => exact .halted rfl rfl
  | stopped h | closed h =>
    cases h with
    | same => exact .kept rfl (.inl rfl) fun _ he => he
    | stopped => exact .stopping rfl rfl
  | irqScanned _ h =>
    subst hch hch'
    refine .kept h.quiet.control.state (.inl h.quiet.control.active) fun hst he => ?_
    rcases hst with hst | hnone
    · exact (scan_unqueued hi hcall hG hst.symm).landed he
    · exact absurd hnone (served rfl)
  | irqFinished => exact .stopping rfl rfl
  | released => exact .kept rfl (.inr rfl) fun _ he => he
  | _ => exact .kept rfl (.inl rfl) fun _ he => he

/-- A channel that is stopped, or has no head, has nothing in flight; one that was never
started has no head. -/
structure Dmachan.Grounded (ch : Dmachan) : Prop where
  fresh : ch.state = .starting → ch.active = none
  stopped : ch.state = .stopped → inFlight ch.log = []
  headless : ch.active = none → inFlight ch.log = []

theorem EngineStep.empty {k : Call} {ch ch' : Dmachan} (h : EngineStep c k o ch ch') (he : ch.Empty) :
    ch'.Empty ∨ ∃ w current, k.Starts w current ∧ w.chan = c ∧ o = .done none ∧ ch'.active = some w.head := by
  obtain ⟨hidle, hlog⟩ := he
  cases h with
  | kept hst _ hkept =>
    refine .inl ⟨?_, hkept (.inl hidle) hlog⟩
    unfold Dmachan.Idle
    rw [hst]
    exact hidle
  | halted hst hempty => exact .inl ⟨.inl hst, hempty⟩
  | stopping hst hsame => exact .inl ⟨.inr hst, hsame ▸ hlog⟩
  | started hk hw ho _ hact => exact .inr ⟨_, _, hk, hw, ho, hact⟩

theorem EngineStep.grounded {k : Call} {ch ch' : Dmachan} (h : EngineStep c k o ch ch') (hg : ch.Grounded)
    (hnone : ch'.active = none → ch.active = none ∨ ch.Empty) : ch'.Grounded where
  fresh hst' := by
    cases h with
    | kept hst hact _ =>
      have hold := hg.fresh (hst.symm.trans hst')
      rcases hact with he | he
      · exact he.trans hold
      · exact he
    | halted hst _ | stopping hst _ | started _ _ _ hst _ => cases hst.symm.trans hst'
  stopped hst' := by
    cases h with
    | kept hst _ hkept =>
      have hold := hst.symm.trans hst'
      exact hkept (.inl (.inl hold)) (hg.stopped hold)
    | halted _ hempty => exact hempty
    | stopping hst _ | started _ _ _ hst _ => cases hst.symm.trans hst'
  headless hact' := by
    have hold : (ch.Idle ∨ ch.active = none) ∧ inFlight ch.log = [] := by
      rcases hnone hact' with hact | hempty
      · exact ⟨.inr hact, hg.headless hact⟩
      · exact ⟨.inl hempty.1, hempty.2⟩
    cases h with
    | kept _ _ hkept => exact hkept hold.1 hold.2
    | halted _ hempty => exact hempty
    | stopping _ hsame => exact hsame ▸ hold.2
    | started _ _ _ _ hact => cases hact.symm.trans hact'

/-! ## The invariant -/

structure Grounded (s : Sys) : Prop where
  tidy : TidyBy (flightTrust s.men) s
  stops : StopsDone s
  chan : ∀ c, (s.men.chan c).Grounded

namespace Grounded

variable (hg : Grounded s)
include hg

theorem shelved_busy (hact : (s.men.chan c).active = some h) (hbusy : ¬ (s.men.chan c).Empty) :
    Shelved busyTrust s.men c h := flightTrust_busy hbusy ▸ hg.tidy.orderly.shelves c h hact

/-- What is in flight belongs to a head that was not released. -/
theorem owner (hb : InFlight s.men b) : ∃ h ∈ s.men.headsList, b ∈ s.men.regs h ∨ b = .dummy h := by
  obtain ⟨c, hb⟩ := hb
  have hne : inFlight (s.men.chan c).log ≠ [] := List.ne_nil_of_mem hb
  obtain ⟨h, hact⟩ := Option.ne_none_iff_exists'.mp fun hnone => hne ((hg.chan c).headless hnone)
  have hs := hg.shelved_busy hact fun hempty => hne hempty.2
  have hhot : b ∈ (s.men.chan c).list .hot := (hs.flown trivial).subset hb
  exact ⟨h, hg.tidy.orderly.linked.live c h hact, (hs.filed.owned .hot b hhot).imp_right And.left⟩

theorem destroySb_landed {sb : SbRef} (hd : sb ∈ s.men.doomed) : ¬ InFlight s.men (.sb sb) := by
  intro hb
  obtain ⟨h, hh, hreg | hdummy⟩ := hg.owner hb
  · have hflat : .sb sb ∈ s.men.heads.flatMap s.men.regs :=
      List.mem_flatMap.mpr ⟨h, mem_heads.mpr (.inl hh), hreg⟩
    exact List.disjoint_of_nodup_append hg.tidy.orderly.registry.bufs (List.mem_map_of_mem hd) hflat
  · cases hdummy

theorem destroyHead_landed (hd : h ∈ s.men.doomedHeads) :
    ¬ InFlight s.men (.dummy h) ∧ ∀ b ∈ s.men.regs h, ¬ InFlight s.men b := by
  have hr := hg.tidy.orderly.registry
  have hlive : ∀ h' ∈ s.men.headsList, h' ≠ h := by
    rintro h' hh rfl
    exact List.disjoint_of_nodup_append hr.heads hh hd
  refine ⟨fun hb => ?_, fun b hreg hb => ?_⟩
  · obtain ⟨h', hh, hreg | hdummy⟩ := hg.owner hb
    · exact dummy_not_mem_regs hreg
    · cases hdummy
      exact hlive h hh rfl
  · obtain ⟨h', hh, hreg' | rfl⟩ := hg.owner hb
    · exact hr.regs_disjoint (mem_heads.mpr (.inr hd)) (mem_heads.mpr (.inl hh)) (hlive h' hh) hreg hreg'
    · exact dummy_not_mem_regs hreg

/-- A hot buffer of a channel that is not empty is called hot. -/
theorem name_hot {sb : SbRef} (hlink : (s.men.head h).chan = some c) (hh : h ∈ s.men.headsList)
    (hreg : .sb sb ∈ s.men.regs h) (hbusy : ¬ (s.men.chan c).Empty)
    (hhot : .sb sb ∈ (s.men.chan c).list .hot) : s.men.name (.sb sb) = .hot :=
  (hg.shelved_busy (hg.tidy.orderly.active hh hlink) hbusy).name_hot hreg hhot

theorem complies {k : Call} (hT : ¬ HeadTaken s (.run k)) (hQ : ¬ QueuesHot s (.run k)) :
    CompliesBy (flightTrust s.men) s.men k := by
  cases k with
  | delBuffer headnr index =>
    intro h b c hh hb hlink hst
    refine ⟨fun n₀ _ => .inr ⟨flightTrust_counts _, flightTrust_counts _⟩, fun hf hhot => ?_⟩
    by_cases hempty : (s.men.chan c).Empty
    · exact hempty.2
    · have hreg : .sb b ∈ s.men.regs h := slot_mem_regs (meGetSubBufByHead_some.mp hb).2
      rcases hst with hst | hne
      · exact (hg.chan c).stopped hst
      · exact absurd (hg.name_hot hlink (meGetBufHead_mem hh) hreg hempty hhot) hne
  | queueCheck headIdx bufIdx =>
    intro h b c hq hlink hidle
    refine .inr ?_
    by_cases hempty : (s.men.chan c).Empty
    · rw [flightTrust_empty hempty]
      trivial
    · rw [flightTrust_busy hempty]
      have hstop : (s.men.chan c).state = .stopping := hidle.resolve_left fun hst =>
        hempty ⟨hidle, (hg.chan c).stopped hst⟩
      exact fun hname => hQ ⟨h, b, c, hq, hlink, hstop, hname⟩
  | queueAct headIdx bufIdx =>
    intro h b c hq hlink n₀ hat
    obtain ⟨hh, hslot⟩ := queueRequest_some.mp hq
    refine ⟨fun hn => absurd hn (flightTrust_counts _), fun hn => absurd hn (flightTrust_counts _),
      fun hn => absurd hn (flightTrust_counts _), fun hf => ?_⟩
    rintro rfl
    by_cases hempty : (s.men.chan c).Empty
    · rw [flightTrust_empty hempty] at hf
      exact hf
    · have hhot : .sb b ∈ (s.men.chan c).list .hot := hat.mem_iff.mpr place_hot
      exact hQ ⟨h, b, hq, hg.name_hot hlink (meGetBufHead_mem hh) (slot_mem_regs hslot) hempty hhot⟩
  | _ => exact hT

/-- A head goes only when its channel has nothing in flight. -/
theorem released_empty {k : Call} (hR : ¬ ReleasesHot s (.run k)) (hcall : call s.men k = .ok (m, o))
    (hk : (∃ n, k = .freeHead n) ∨ k = .cleanupMem) (hst : (s.men.chan c).state ≠ .started)
    (hact : (s.men.chan c).active = some h) (hnone : (m.chan c).active = none) : (s.men.chan c).Empty := by
  by_contra hbusy
  have hs := hg.shelved_busy hact hbusy
  have hl := hg.tidy.orderly.linked
  have hh := hl.live c h hact
  have hstop : (s.men.chan c).state ≠ .stopped := fun hstop =>
    hbusy ⟨.inl hstop, (hg.chan c).stopped hstop⟩
  have hidle : (s.men.chan c).Idle := by
    cases hc : (s.men.chan c).state with
    | starting => cases hact.symm.trans ((hg.chan c).fresh hc)
    | started => exact absurd hc hst
    | stopping => exact .inr hc
    | stopped => exact .inl hc
  have hhot : (s.men.chan c).list .hot ≠ [] := by
    intro hempty
    have hsub := hs.flown trivial
    rw [hempty] at hsub
    exact hbusy ⟨hidle, List.eq_nil_of_subset_nil hsub.subset⟩
  have hheated : Heated s.men h := ⟨c, (hl.linked c h hh).mp hact, hstop, hst, hhot⟩
  rcases hk with ⟨headnr, rfl⟩ | rfl
  · exact hR ⟨h, freeHead_active hl hcall hact hnone, hheated⟩
  · exact hR ⟨h, hh, hheated⟩

theorem headless_empty {k : Call} (hR : ¬ ReleasesHot s (.run k)) (hcall : call s.men k = .ok (m, o))
    (hnone : (m.chan c).active = none) : (s.men.chan c).active = none ∨ (s.men.chan c).Empty := by
  cases hact : (s.men.chan c).active with
  | none => exact .inl rfl
  | some h =>
    rcases chanStep_active_some (call_chan hcall c) with he | hne | ⟨hk, hst⟩
    · cases hact.symm.trans (he.symm.trans hnone)
    · exact absurd hnone hne
    · exact .inr (hg.released_empty hR hcall hk hst hact hnone)

end Grounded

/-- A start files the buffers of its head anew, so they can be trusted as much as one likes. -/
theorem started_shelved {tr : Trust} {k : Call} {w : StartWait} {current : Tgid} (hr : Registry m)
    (hk : k.Starts w current) (hcall : call m k = .ok (m', .done none)) : Shelved tr m' w.chan w.head := by
  rcases hk.runs hcall with ⟨_, ho⟩ | ⟨hw, ret, hhead, h₁, ho⟩
  · cases ho
  · cases ret with
    | some e => cases ho
    | none =>
      have hlive : w.head ∈ m.heads := mem_heads.mpr (.inl (meGetBufHead_mem hhead))
      rcases fgStartTail_cases h₁ with ⟨_, h₂⟩ | ⟨_, _, he, _⟩
      · rcases menStartDma_cases h₂ with ⟨_, _, he⟩ | ⟨hb, _⟩
        · cases he
        · rw [fgStartSetup_busy] at hb
          exact (fgStartTail_keeps (hr.stock hlive) hb h₁).shelved
      · cases he

/-- What is trusted after a call is what was trusted before it, or the channel was just started. -/
theorem Shelved.retrust {k : Call} (hr : Registry s.men) (hcall : call s.men k = .ok (m, o))
    (he : EngineStep c k o (s.men.chan c) (m.chan c)) (hact : (m.chan c).active = some h)
    (hs : Shelved (flightTrust s.men c) m c h) : Shelved (flightTrust m c) m c h := by
  by_cases hempty : (m.chan c).Empty
  · rw [flightTrust_empty hempty]
    exact hs.mono (fun _ _ _ => trivial) (fun _ hn => hn.elim) fun hf => hf.elim
  · rw [flightTrust_busy hempty]
    by_cases hbefore : (s.men.chan c).Empty
    · rcases he.empty hbefore with hafter | ⟨w, current, hk, rfl, rfl, hstart⟩
      · exact absurd hafter hempty
      · obtain rfl : h = w.head := Option.some.inj (hact.symm.trans hstart)
        exact started_shelved hr hk hcall
    · rw [flightTrust_busy hbefore] at hs
      exact hs

/-- What keeps buffers from being destroyed in flight: no start takes a head over, hot buffers
are not queued again, no head is released under an engine that runs, and no stopped channel
is fed. -/
structure Careful (s : Sys) (e : Event) : Prop where
  taken : ¬ HeadTaken s e
  queued : ¬ QueuesHot s e
  released : ¬ ReleasesHot s e
  fed : ¬ FeedsStopped s e

theorem step_grounded {e : Event} (hG : Careful s e) (hg : Grounded s) (h : step s e = .ok t) :
    Grounded t := by
  have htidy := step_tidy hg.tidy (fun k he => hg.complies (he ▸ hG.taken) (he ▸ hG.queued)) h
  have hstops := step_stopsDone hg.stops h
  cases e with
  | irqEnter =>
    obtain ⟨_, _, rfl⟩ := step_irqEnter h
    exact ⟨htidy, hstops, hg.chan⟩
  | run k =>
    obtain ⟨m, o, hcall, hr, rfl⟩ := step_run h
    have hengine : ∀ c, EngineStep c k o (s.men.chan c) (m.chan c) := fun _ =>
      call_engine hg.tidy hg.stops hr hcall hG.fed
    refine ⟨⟨htidy.toLocked, ⟨htidy.orderly.linked, htidy.orderly.registry, fun c h hact => ?_⟩,
      htidy.served⟩, hstops, fun c => ?_⟩
    · exact (htidy.orderly.shelves c h hact).retrust hg.tidy.orderly.registry hcall (hengine c) hact
    · exact (hengine c).grounded (hg.chan c) fun hnone => hg.headless_empty hG.released hcall hnone

theorem grounded_probe (activeFpgas : Nat) (dmacnt : List Nat) (fpga : ChanRef → Nat) (fifo : UInt32) :
    Grounded (sysProbe activeFpgas dmacnt fpga fifo) where
  tidy := tidy_probe activeFpgas dmacnt fpga fifo
  stops := stopsDone_probe activeFpgas dmacnt fpga fifo
  chan _ := ⟨fun _ => rfl, fun _ => rfl, fun _ => rfl⟩

theorem Grounded.landed {e : Event} (hg : Grounded s) (h : step s e = .ok t) : ¬ DestroysInFlight s e := by
  cases e with
  | irqEnter => exact id
  | run k =>
    obtain ⟨m, o, hcall, _, _⟩ := step_run h
    cases k with
    | destroySb b =>
      obtain ⟨m₁, h₁, _⟩ := bind_ok.mp hcall
      exact hg.destroySb_landed (menDestroySb_ok.mp h₁).1
    | destroyHead hd =>
      obtain ⟨m₁, h₁, _⟩ := bind_ok.mp hcall
      obtain ⟨hdummy, hregs⟩ := hg.destroyHead_landed (menFreeBufHead_ok.mp h₁).1
      rintro (hb | ⟨b, hreg, hb⟩)
      · exact hdummy hb
      · exact hregs b hreg hb
    | _ => exact id

/-- In a careful run no buffer is destroyed that an engine was given, has not given back and
was not halted for since. -/
theorem none_destroyed_in_flight (activeFpgas : Nat) (dmacnt : List Nat) (fpga : ChanRef → Nat)
    (fifo : UInt32)
    (es : List Event) (hG : Meets step Careful (sysProbe activeFpgas dmacnt fpga fifo) es) :
    Meets step (fun s e => ¬ DestroysInFlight s e) (sysProbe activeFpgas dmacnt fpga fifo) es :=
  meets_of_meets (fun _ _ _ => step_grounded) (fun _ _ _ => Grounded.landed)
    (grounded_probe activeFpgas dmacnt fpga fifo) hG

section Example

def carefulCheck (s : Sys) (e : Event) : Bool :=
  countsCheck s e && match e with
    | .run (.queueCheck ..) | .run (.unlock ..) | .run .cleanupMem => false
    | .run (.irqScan c _) => decide ((s.men.chan c).state ≠ .stopped)
    | .run (.freeHead headnr) =>
      ((meGetBufHead s.men headnr).bind fun h => (s.men.head h).chan).all fun c =>
        decide ((s.men.chan c).state = .stopped)
    | _ => true

theorem carefulCheck_sound (s : Sys) (e : Event) (h : carefulCheck s e = true) : Careful s e := by
  unfold carefulCheck at h
  rw [Bool.and_eq_true] at h
  obtain ⟨hT, _⟩ := countsCheck_sound s e h.1
  cases e with
  | irqEnter => exact ⟨hT, id, id, id⟩
  | run k =>
    cases k with
    | queueAct => cases h.1
    | queueCheck | unlock | cleanupMem => cases h.2
    | irqScan c newFrames => exact ⟨hT, id, id, fun hf => of_decide_eq_true h.2 hf.1⟩
    | freeHead headnr =>
      refine ⟨hT, id, ?_, id⟩
      rintro ⟨hd, hh, c, hlink, hne, _⟩
      have hst := h.2
      simp only [hh, Option.bind_some, hlink, Option.all_some] at hst
      exact hne (of_decide_eq_true hst)
    | _ => exact ⟨hT, id, id, id⟩

/-- One frame comes in, the acquisition is stopped, and its buffers are freed when the engine
is halted. -/
def freeWhenStopped : List Event :=
  oneOfFive ++ [.run (.irqScan 0 1), .run (.irqRearm 0), .run (.stop 0), .run (.workTake 0),
    .run (.workRun 0),
    .run (.cleanScan 0), .run (.freeHead 0), .run (.destroyHead 7)]

theorem none_destroyed_in_flight_stopped :
    Meets step (fun s e => ¬ DestroysInFlight s e) (sysProbe 1 [1] (fun _ => 0) 8) freeWhenStopped :=
  none_destroyed_in_flight 1 [1] (fun _ => 0) 8 freeWhenStopped
    (meets_of_check carefulCheck_sound (by decide +kernel))

/-- The same, but the head is freed before the work that halts the engine has run. -/
def freeWhileStopping : List Event :=
  [.run (.createHead 2 (some 7)),
    .run (.addBuffer { start := 0, length := 4096, subnr := 0, headnr := 0 } (some 3)),
    .run (.start fiveFrames 0), .run (.startTail ⟨fiveFrames, 7, 0⟩ .running 1), .run (.stop 0),
    .run (.freeHead 0)]

theorem destroyed_in_flight :
    ¬ Meets step (fun s e => ¬ DestroysInFlight s e) (sysProbe 1 [1] (fun _ => 0) 8)
      (freeWhileStopping ++ [.run (.destroyHead 7)]) := by
  obtain ⟨s, hs, hp⟩ := exists_of_check step (sysProbe 1 [1] (fun _ => 0) 8) freeWhileStopping
    (fun s => decide (.sb 3 ∈ s.men.regs 7) && decide (.sb 3 ∈ inFlight (s.men.chan 0).log) &&
      check step s [.run (.destroyHead 7)] fun _ => true) (by decide +kernel)
  simp only [Bool.and_eq_true, decide_eq_true_eq] at hp
  obtain ⟨⟨hreg, hflight⟩, hdestroy⟩ := hp
  obtain ⟨t, ht, _⟩ := exists_of_check step s _ _ hdestroy
  obtain ⟨_, hstep, _⟩ := run_cons_ok.mp ht
  intro h
  exact ((h.of_append hs) _ hstep).1 (.inr ⟨.sb 3, hreg, 0, hflight⟩)

end Example

end MenableDriver
