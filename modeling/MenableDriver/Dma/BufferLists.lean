import MenableDriver.Dma.Orderly

/-!
# The buffer lists of a channel and their counters

The buffers of the active head lie in the lists that their `listname` tells and the counters
are the lengths of the lists, but for one thing: while no acquisition is active, a queue
request only marks its buffer as being ready and leaves it where it is.
-/

namespace MenableDriver

set_option autoImplicit false

open Transition Shelves

variable {m : Men} {s t : Sys} {c : ChanRef} {h : HeadRef}

/-- The lists of a channel, when `name` tells the one of every buffer. -/
structure ListsExact (m : Men) (c : ChanRef) (h : HeadRef) (name : BufRef → ListName) : Prop where
  placed : ∀ b ∈ m.regs h, At (m.chan c).list b (name b).place
  members : ∀ n b, b ∈ (m.chan c).list n → b ∈ m.regs h ∨ b = .dummy h ∧ n = .hot

structure CountsExact (m : Men) (c : ChanRef) (h : HeadRef) (name : BufRef → ListName) : Prop where
  count : ∀ n, n ≠ .noList → (m.chan c).count n = ((m.chan c).list n).length
  locked : (m.chan c).count .noList = (m.regs h).countP fun b => decide (name b = .noList)

/-- The names without the marks: a queue request marks its buffer as being ready while no
acquisition is active. -/
def WithoutMarks (m : Men) (c : ChanRef) (h : HeadRef) (name : BufRef → ListName) : Prop :=
  ∀ b ∈ m.regs h, m.name b = name b ∨ (m.chan c).Idle ∧ m.name b = .ready

def ListsAgree (m : Men) : Prop :=
  ∀ c h, (m.chan c).active = some h → ∃ name, WithoutMarks m c h name ∧ ListsExact m c h name

def CountsAgree (m : Men) : Prop :=
  ∀ c h, (m.chan c).active = some h → ∃ name, WithoutMarks m c h name ∧ ListsExact m c h name ∧
    CountsExact m c h name

/-- A buffer is queued in a running acquisition that is not free, or a buffer with a mark is
deleted: the counters follow the `listname` and not the list. -/
def Miscounts (s : Sys) : Event → Prop
  | .run (.queueAct headIdx bufIdx) =>
    ∃ h b, queueRequest s.men headIdx bufIdx = some (h, b) ∧ s.men.name (.sb b) ≠ .free
  | .run (.delBuffer headnr index) =>
    ∃ h b c, meGetBufHead s.men headnr = some h ∧ meGetSubBufByHead s.men h index = some b ∧
      (s.men.head h).chan = some c ∧ s.men.name (.sb b) = .ready ∧ .sb b ∉ (s.men.chan c).list .ready
  | _ => False

/-- Every list may have marks. -/
def noCounts : Trust := ⟨fun _ => True, fun _ => False, False⟩

def allCounts : Trust := ⟨fun _ => True, fun _ => True, False⟩

theorem Shelved.listsExact {tr : Trust} (hs : Shelved tr m c h) : ∃ name, WithoutMarks m c h name ∧
    ListsExact m c h name := by
  have hex : ∀ b, ∃ n : ListName, b ∈ m.regs h → At (m.chan c).list b n.place ∧
      (m.name b = n ∨ (m.chan c).Idle ∧ m.name b = .ready) := by
    intro b
    by_cases hb : b ∈ m.regs h
    · obtain ⟨n, hat, hn⟩ := hs.filed.placed b hb
      exact ⟨n, fun _ => ⟨hat, hn.imp_right fun h => ⟨h.1, h.2.2⟩⟩⟩
    · exact ⟨.noList, fun h => absurd h hb⟩
  choose name hname using hex
  exact ⟨name, fun b hb => (hname b hb).2, fun b hb => (hname b hb).1, hs.filed.owned⟩

theorem ListsExact.counts {name : BufRef → ListName} (hl : ListsExact m c h name)
    (hs : Shelved allCounts m c h) :
    CountsExact m c h name where
  count n hn := by rw [hs.counted.count n trivial, held_list hn]
  locked := by
    rw [hs.counted.count .noList trivial, held_noList]
    refine List.countP_congr fun b hb => ?_
    rw [linked_at (hl.placed b hb)]
    simp

theorem noCounts_complies {k : Call} (hG : ¬ HeadTaken s (.run k)) : Complies noCounts s.men k := by
  cases k with
  | queueAct headIdx bufIdx => exact fun _ _ _ _ _ _ _ =>
    ⟨fun h => h.elim, fun h => h.elim, fun h => h.elim, fun h => h.elim⟩
  | delBuffer headnr index => exact fun _ _ _ _ _ _ _ => ⟨fun _ _ => .inr ⟨id, id⟩, fun h => h.elim⟩
  | queueCheck headIdx bufIdx => exact fun _ _ _ _ _ _ => .inr trivial
  | _ => exact hG

theorem complies_of_counts {tr : Trust} (hfl : ¬ tr.flight) (ho : Orderly tr s.men) {k : Call}
    (hT : ¬ HeadTaken s (.run k)) (hG : ¬ Miscounts s (.run k))
    (hm : ∀ headIdx bufIdx, k = .queueCheck headIdx bufIdx → Complies tr s.men k) : Complies tr s.men k := by
  -- where the name tells the list, the buffer lies nowhere else
  have place : ∀ {h c b n n₀}, (s.men.chan c).active = some h → .sb b ∈ s.men.regs h →
      s.men.name (.sb b) = n → n ≠ .ready → At (s.men.chan c).list (.sb b) (ListName.place n₀) → n₀ = n := by
    intro h c b n n₀ hact hb hname hn hat
    exact place_inj (hat.unique ((ho.shelves c h hact).filed.at_of_name hb hname hn))
  cases k with
  | queueAct headIdx bufIdx =>
    intro h b c hq hlink n₀ hat
    obtain ⟨hh, hslot⟩ := queueRequest_some.mp hq
    have hact := ho.active (meGetBufHead_mem hh) hlink
    have hfree : s.men.name (.sb b) = .free := by
      by_contra hne
      exact hG ⟨h, b, hq, hne⟩
    obtain rfl := place hact (slot_mem_regs hslot) hfree (by simp) hat
    exact ⟨fun _ => rfl, fun _ => rfl, fun _ => by simp, fun hf => absurd hf hfl⟩
  | delBuffer headnr index =>
    intro h b c hh hb hlink _
    refine ⟨fun n₀ hat => .inl ?_, fun hf => absurd hf hfl⟩
    have hact := ho.active (meGetBufHead_mem hh) hlink
    have hmem : .sb b ∈ s.men.regs h := slot_mem_regs (meGetSubBufByHead_some.mp hb).2
    by_cases hname : s.men.name (.sb b) = .ready
    · have hin : .sb b ∈ (s.men.chan c).list .ready := by
        by_contra hnot
        exact hG ⟨h, b, c, hh, hb, hlink, hname, hnot⟩
      rw [hname]
      exact (place_eq_some.mp (hat.mem_iff.mp hin)).1.symm
    · exact (place hact hmem rfl hname hat).symm
  | queueCheck headIdx bufIdx => exact hm headIdx bufIdx rfl
  | _ => exact hT

/-- As long as no start takes a head over, every buffer of an active head lies in the list its
`listname` tells or has a mark. As long as buffers are only queued and deleted from the list
that their `listname` tells, the counters are right too. -/
theorem lists_agree (activeFpgas : Nat) (dmacnt : List Nat) (fpga : ChanRef → Nat) (fifo : UInt32)
    (es : List Event)
    (hT : Meets step (fun s e => ¬ HeadTaken s e) (sysProbe activeFpgas dmacnt fpga fifo) es) :
    Always step (fun s => ListsAgree s.men) (sysProbe activeFpgas dmacnt fpga fifo) es ∧
      (Meets step (fun s e => ¬ Miscounts s e) (sysProbe activeFpgas dmacnt fpga fifo) es →
        Always step (fun s => CountsAgree s.men) (sysProbe activeFpgas dmacnt fpga fifo) es) := by
  constructor
  · have hall : Always step (Tidy noCounts) (sysProbe activeFpgas dmacnt fpga fifo) es :=
      always_of_meets (fun s e t hG ht h => step_tidy ht (fun k he => noCounts_complies (he ▸ hG)) h)
        (tidy_probe activeFpgas dmacnt fpga fifo) hT
    exact hall.mono fun s ht c h hact => (ht.orderly.shelves c h hact).listsExact
  · intro hM
    have hall : Always step (Tidy allCounts) (sysProbe activeFpgas dmacnt fpga fifo) es :=
      always_of_meets (fun s e t hG ht h => step_tidy ht
        (fun k he => complies_of_counts id ht.orderly (he ▸ hG.1) (he ▸ hG.2)
          fun _ _ he => he ▸ fun _ _ _ _ _ _ => .inr trivial) h)
        (tidy_probe activeFpgas dmacnt fpga fifo) (hT.and hM)
    refine hall.mono fun s ht c h hact => ?_
    have hs := ht.orderly.shelves c h hact
    obtain ⟨name, hu, hl⟩ := hs.listsExact
    exact ⟨name, hu, hl, hl.counts hs⟩

section Example

def selective : FgCtrl :=
  { mode := 0x04, timeout := 0, transferTodo := 5, chan := 0, head := 0, startBuf := 0, dmaDir := 0 }

/-- A buffer is registered while the channel runs, and queued when it has stopped. -/
def queueWhenStopped : List Event :=
  [.run (.createHead 2 (some 7)),
    .run (.addBuffer { start := 0, length := 4096, subnr := 0, headnr := 0 } (some 3)),
    .run (.queueCheck 0 0), .run (.start selective 0), .run (.startTail ⟨selective, 7, 0⟩ .running 1),
    .run (.addBuffer { start := 0, length := 4096, subnr := 1, headnr := 0 } (some 4)),
    .run (.stop 0), .run (.workTake 0), .run (.workRun 0), .run (.cleanScan 0), .run (.queueCheck 0 1)]

/-- What the guards ask of the events that can break them, for runs that are evaluated. -/
def countsCheck (s : Sys) : Event → Bool
  | .run (.startTail w _ _) => decide ((s.men.head w.head).chan = none)
  | .run (.startRest ..) | .run (.queueAct ..) | .run (.delBuffer ..) => false
  | _ => true

theorem countsCheck_sound (s : Sys) (e : Event) (h : countsCheck s e = true) :
    ¬ HeadTaken s e ∧ ¬ Miscounts s e := by
  cases e with
  | irqEnter => exact ⟨id, id⟩
  | run k =>
    cases k with
    | startTail w hw current =>
      refine ⟨?_, id⟩
      rintro ⟨c', hlink, _⟩
      rw [of_decide_eq_true h] at hlink
      cases hlink
    | startRest | queueAct | delBuffer => cases h
    | _ => exact ⟨id, id⟩

theorem lists_agree_queueWhenStopped :
    Always step (fun s => ListsAgree s.men) (sysProbe 1 [1] (fun _ => 0) 8) queueWhenStopped ∧
      Always step (fun s => CountsAgree s.men) (sysProbe 1 [1] (fun _ => 0) 8) queueWhenStopped := by
  have hG : Meets step (fun s e => ¬ HeadTaken s e ∧ ¬ Miscounts s e) (sysProbe 1 [1] (fun _ => 0) 8)
      queueWhenStopped := meets_of_check countsCheck_sound (by decide +kernel)
  have hl := lists_agree 1 [1] (fun _ => 0) 8 queueWhenStopped (hG.mono fun _ _ h => h.1)
  exact ⟨hl.1, hl.2 (hG.mono fun _ _ h => h.2)⟩

/-- Afterwards the buffer is called ready and lies in the free list. -/
theorem lists_marked : ∃ t, run step (sysProbe 1 [1] (fun _ => 0) 8) queueWhenStopped = .ok t ∧
    (t.men.chan 0).active = some 7 ∧ ¬ ListsExact t.men 0 7 t.men.name := by
  obtain ⟨t, ht, hp⟩ := exists_of_check step (sysProbe 1 [1] (fun _ => 0) 8) (queueWhenStopped)
    (fun t => decide ((t.men.chan 0).active = some 7) && decide (.sb 4 ∈ t.men.regs 7) &&
      decide (.sb 4 ∈ (t.men.chan 0).list .free) && decide (t.men.name (.sb 4) = .ready)) (by decide +kernel)
  simp only [Bool.and_eq_true, decide_eq_true_eq] at hp
  obtain ⟨⟨⟨hact, hreg⟩, hfree⟩, hname⟩ := hp
  refine ⟨t, ht, hact, fun hl => ?_⟩
  have hat := hl.placed (.sb 4) hreg
  rw [hname] at hat
  cases (place_eq_some.mp (hat.mem_iff.mp hfree)).1

end Example

end MenableDriver
