import MenableDriver.Dma.Registry

/-!
# Concurrent registrations

An add request looks at its slot in one section under `buffer_heads_lock` and fills the slot
in a later one; in between it pins and maps the pages without the lock. Here the two sections
are events of their own, and everything else the driver does may come between them.
-/

namespace MenableDriver

set_option autoImplicit false

open Transition

deriving instance DecidableEq for IoRange

/-- An add request that succeeded. -/
structure Registration where
  head : HeadRef
  slot : Nat
  buf : SbRef
deriving DecidableEq, Repr

/-- The driver, the add requests between their two sections, and the registrations whose
buffer was not freed since. -/
structure Desk where
  sys : Sys
  adding : List IoRange := []
  registered : List Registration := []

inductive AddEvent where
  | other (e : Event)
  | check (r : IoRange)
  | abandon (r : IoRange)
  | store (r : IoRange) (b : SbRef)

/-- A delete request that succeeds frees the buffer of its slot, a head is destroyed with all
its buffers. -/
def Event.frees (m : Men) : Event → Registration → Bool
  | .run (.delBuffer headnr index), g =>
    match menIoctlDelVirtUserBuffer m headnr index with
    | .ok (_, none) => decide (meGetBufHead m headnr = some g.head) && decide (index = g.slot)
    | _ => false
  | .run (.destroyHead h), g => decide (g.head = h)
  | _, _ => false

def Event.isAdd : Event → Bool
  | .run (.addBuffer ..) => true
  | _ => false

/-- `abandon` is a request whose pages could not be pinned or mapped. -/
def addStep (s : Desk) : AddEvent → Except Halt Desk
  | .other e =>
    if e.isAdd then .error .blocked
    else do
      let sys ← step s.sys e
      .ok { s with sys := sys, registered := s.registered.filter fun g => !e.frees s.sys.men g }
  | .check r =>
    if s.sys.headsFree ∧ r.length ≠ 0 then do
      match ← menCreateUserbufCheck s.sys.men r with
      | some _ => .ok s
      | none => .ok { s with adding := r :: s.adding }
    else .error .blocked
  | .abandon r => if r ∈ s.adding then .ok { s with adding := s.adding.erase r } else .error .blocked
  | .store r b =>
    if r ∈ s.adding ∧ s.sys.headsFree ∧ s.sys.men.sbInUse b = false then do
      let (m, ret) ← menCreateUserbufStore s.sys.men r b
      .ok
        { sys := { s.sys with men := m }
          adding := s.adding.erase r
          registered :=
            match ret, meGetBufHead s.sys.men r.headnr with
            | none, some h => ⟨h, r.subnr.toNat, b⟩ :: s.registered
            | _, _ => s.registered }
    else .error .blocked

/-- No slot was registered twice, and every slot still holds the buffer of its registration. -/
structure NoneLost (s : Desk) : Prop where
  once : s.registered.Pairwise fun g g' => ¬ (g.head = g'.head ∧ g.slot = g'.slot)
  held : ∀ g ∈ s.registered, (s.sys.men.head g.head).bufs[g.slot]? = some (some g.buf)

/-- The second section finds a buffer in the slot that the first one saw empty. -/
def SlotTaken (s : Desk) : AddEvent → Prop
  | .store r _ => ∃ h b, meGetBufHead s.sys.men r.headnr = some h ∧
      (s.sys.men.head h).bufs[r.subnr.toNat]? = some (some b)
  | _ => False

def Registration.In (m : Men) (g : Registration) : Prop :=
  g.head ∈ m.heads ∧ (m.head g.head).bufs[g.slot]? = some (some g.buf)

variable {m m' : Men} {g : Registration}

namespace Registration

theorem in_congr (hs : SameRegs m m') : g.In m' ↔ g.In m := by
  unfold In
  rw [hs.heads, hs.slots]

/-- Heads may move to the heads that wait to be destroyed. -/
theorem in_of_heads (hh : ∀ h, h ∈ m'.heads ↔ h ∈ m.heads) (hs : m'.head = m.head) : g.In m' ↔ g.In m := by
  unfold In
  rw [hh, hs]

end Registration

theorem menCreateBufHead_in {subbufs : Int} {mem : Option HeadRef} {r : Except Errno Nat}
    (hc : menCreateBufHead m subbufs mem = .ok (m', r)) : g.In m' ↔ g.In m := by
  rcases menCreateBufHead_cases hc with rfl | ⟨h, hd, hu, _, hbufs, rfl⟩
  · rfl
  · have hnew : h ∉ m.heads := by
      rw [← headInUse_iff, hu]
      simp
    by_cases hg : g.head = h
    · refine iff_of_false ?_ fun hi => hnew (hg ▸ hi.1)
      rintro ⟨_, hslot⟩
      have hmem := List.mem_of_getElem? hslot
      simp [hg, hbufs] at hmem
    · simp only [Registration.In, Men.heads, Men.modBuf_head, Men.setHead_head, hg, if_false,
        Men.modBuf_doomedHeads, Men.setHead_doomedHeads, List.mem_append, List.mem_singleton, or_false]

theorem menReleaseBufHead_in {h : HeadRef} (hh : h ∈ m.headsList) (hc : menReleaseBufHead m h = (m', none)) :
    g.In { m' with doomedHeads := h :: m'.doomedHeads } ↔ g.In m := by
  have hmem : ∀ h', h' ∈ m.headsList.erase h ++ h :: m.doomedHeads ↔ h' ∈ m.heads := fun h' =>
    (List.perm_middle.trans ((List.perm_cons_erase hh).symm.append_right _)).mem_iff
  rcases menReleaseBufHead_cases hc with ⟨_, hne⟩ | ⟨_, ⟨_, rfl⟩ | ⟨c, _, _, rfl⟩⟩
  · exact absurd rfl hne
  · exact Registration.in_of_heads hmem rfl
  · exact Registration.in_of_heads hmem rfl

theorem menCleanupMem_in (hn : m.headsList.Nodup) (hc : menCleanupMem m m.headsList = .ok m') :
    g.In m' ↔ g.In m :=
  menCleanupMem_keeps (P := fun m' => g.In m' ↔ g.In m)
    (fun hh h₁ hin => (menReleaseBufHead_in hh h₁).trans hin) hn Iff.rfl hc

/-- The slot that a delete request has emptied. -/
theorem setSlot_in {h : HeadRef} {i : Nat} {doomed : List SbRef} :
    g.In { m.setSlot h i none with doomed := doomed } ↔ g.In m ∧ ¬ (g.head = h ∧ g.slot = i) := by
  unfold Registration.In
  by_cases hg : g.head = h
  · by_cases hi : g.slot = i
    · simp [Men.setSlot, hg, hi, List.getElem?_set_self']
    · have hi' : i ≠ g.slot := fun he => hi he.symm
      simp [Men.setSlot, hg, hi, hi', List.getElem?_set_ne, Men.heads]
  · simp [Men.setSlot, hg, Men.heads]

theorem menIoctlDelVirtUserBuffer_in {headnr : Nat} {index : Int} {ret : Ret}
    (hc : menIoctlDelVirtUserBuffer m headnr index = .ok (m', ret)) :
    g.In m' ↔ g.In m ∧ Event.frees m (.run (.delBuffer headnr index)) g = false := by
  have hfrees : Event.frees m (.run (.delBuffer headnr index)) g = false ↔
      ¬ (ret = none ∧ meGetBufHead m headnr = some g.head ∧ index = g.slot) := by
    cases ret with
    | none => simp [Event.frees, hc]
    | some e => simp [Event.frees, hc]
  rw [hfrees]
  unfold menIoctlDelVirtUserBuffer at hc
  split at hc
  · rename_i hh
    cases hc
    simp
  · rename_i h hh
    obtain ⟨⟨m₁, ret₁⟩, h₁, hc⟩ := bind_ok.mp hc
    rcases menFreeUserbuf_cases h₁ with ⟨rfl, hne⟩ | ⟨b, rfl, h0, _, _, hfree⟩
    · cases ret₁ with
      | none => exact absurd rfl hne
      | some e =>
        cases hc
        simp
    · cases hc
      have hslot : index = g.slot ↔ g.slot = index.toNat := by omega
      have hhead : h = g.head ↔ g.head = h := eq_comm
      rw [hh]
      simp only [true_and, Option.some.injEq, hslot, hhead]
      rcases hfree with ⟨_, rfl⟩ | ⟨c, m₂, _, _, h₂, rfl⟩
      · exact setSlot_in
      · obtain ⟨ch, rfl⟩ := dropFromChannel_board h₂
        exact setSlot_in

theorem menFreeBufHead_in {h : HeadRef} (hn : m.heads.Nodup) (hc : menFreeBufHead m h = .ok m') :
    g.In m' ↔ g.In m ∧ g.head ≠ h := by
  obtain ⟨hh, rfl⟩ := menFreeBufHead_ok.mp hc
  have hlist : h ∉ m.headsList := fun hl => (List.nodup_append.mp hn).2.2 h hl h hh rfl
  have hmem : ∀ h', h' ∈ m.headsList ++ m.doomedHeads.erase h ↔ h' ∈ m.heads ∧ h' ≠ h := fun h' => by
    rw [Men.heads, List.mem_append, List.mem_append, (List.nodup_append.mp hn).2.1.mem_erase_iff]
    constructor
    · rintro (hl | ⟨hne, hd⟩)
      · exact ⟨.inl hl, fun he => hlist (he ▸ hl)⟩
      · exact ⟨.inr hd, hne⟩
    · rintro ⟨hl | hd, hne⟩
      · exact .inl hl
      · exact .inr ⟨hne, hd⟩
  unfold Registration.In
  rw [Men.heads, hmem]
  exact and_right_comm

/-- What is registered before a call and not freed by it is registered after it. -/
theorem call_in {k : Call} {o : Outcome} (hr : Registry m) (hk : Event.isAdd (.run k) = false)
    (h : call m k = .ok (m', o)) : g.In m' ↔ g.In m ∧ Event.frees m (.run k) g = false := by
  by_cases hb : k.keepsBoard = true
  · have hframe := Registration.in_congr (g := g) (.of_board (call_sameBoard hb h))
    cases k with
    | delBuffer | destroyHead => cases hb
    | _ => simpa [Event.frees] using hframe
  · cases k with
    | addBuffer r mem => cases hk
    | createHead subbufs mem =>
      obtain ⟨⟨m₁, r⟩, h₁, h⟩ := bind_ok.mp h
      cases h
      simpa [Event.frees] using menCreateBufHead_in h₁
    | delBuffer headnr index =>
      obtain ⟨⟨m₁, ret⟩, h₁, h⟩ := bind_ok.mp h
      cases h
      exact menIoctlDelVirtUserBuffer_in h₁
    | destroySb b =>
      obtain ⟨m₁, h₁, h⟩ := bind_ok.mp h
      cases h
      obtain ⟨_, rfl⟩ := menDestroySb_ok.mp h₁
      simp [Event.frees, Registration.In, Men.heads]
    | freeHead headnr =>
      obtain ⟨ret, h₁⟩ := call_freeHead h
      rcases menIoctlFreeVirtBuffer_cases h₁ with rfl | ⟨hd, m₁, hh, h₂, rfl⟩
      · simp [Event.frees]
      · simpa [Event.frees] using menReleaseBufHead_in (meGetBufHead_mem hh) h₂
    | destroyHead hd =>
      obtain ⟨m₁, h₁, h⟩ := bind_ok.mp h
      cases h
      simpa [Event.frees] using menFreeBufHead_in hr.heads h₁
    | cleanupMem =>
      obtain ⟨m₁, h₁, h⟩ := bind_ok.mp h
      cases h
      simpa [Event.frees] using menCleanupMem_in hr.heads.of_append_left h₁
    | startTail w hw current =>
      simpa [Event.frees] using Registration.in_congr (Call.Starts.sameRegs (.tail hw) h)
    | startRest w hw current =>
      simpa [Event.frees] using Registration.in_congr (Call.Starts.sameRegs (.rest hw) h)
    | _ => exact absurd rfl hb

/-- The registrations are the filled slots of the heads there are. -/
structure Entered (s : Desk) : Prop where
  registry : Registry s.sys.men
  once : s.registered.Pairwise fun g g' => ¬ (g.head = g'.head ∧ g.slot = g'.slot)
  filled : ∀ g, g ∈ s.registered ↔ g.In s.sys.men

theorem Entered.noneLost {s : Desk} (hs : Entered s) : NoneLost s where
  once := hs.once
  held g hg := ((hs.filled g).mp hg).2

theorem step_in {s t : Sys} {e : Event} (hr : Registry s.men) (he : e.isAdd = false) (h : step s e = .ok t) :
    g.In t.men ↔ g.In s.men ∧ e.frees s.men g = false := by
  cases e with
  | run k =>
    obtain ⟨m, o, h₁, _, rfl⟩ := step_run h
    exact call_in hr he h₁
  | irqEnter c newFrames =>
    obtain ⟨_, _, rfl⟩ := step_irqEnter h
    simp [Event.frees]

theorem putUserbuf_in {r : IoRange} {h : HeadRef} {b : SbRef} (hh : h ∈ m.heads)
    (hlt : r.subnr.toNat < (m.head h).bufs.length) :
    g.In (putUserbuf m r h b) ↔
      g = ⟨h, r.subnr.toNat, b⟩ ∨ g.In m ∧ ¬ (g.head = h ∧ g.slot = r.subnr.toNat) := by
  obtain ⟨gh, gs, gb⟩ := g
  simp only [Registration.In, putUserbuf, Men.setSlot, Registration.mk.injEq]
  by_cases hg : gh = h
  · subst hg
    by_cases hi : gs = r.subnr.toNat
    · have hmem : gh ∈ m.heads := hh
      simp only [Men.heads, Men.setHead_headsList, Men.modBuf_headsList, Men.setHead_doomedHeads,
        Men.modBuf_doomedHeads, Men.setHead_head, if_true, Men.modBuf_head, hi,
        List.getElem?_set_self hlt, Option.some.injEq, true_and, not_true, and_false, or_false]
      exact (and_iff_right hmem).trans eq_comm
    · have hi' : r.subnr.toNat ≠ gs := fun he => hi he.symm
      simp [hi, List.getElem?_set_ne hi', Men.heads]
  · simp [hg, Men.heads]

/-- A store keeps the registrations apart exactly when its slot is still empty. -/
theorem store_entered {s : Desk} {r : IoRange} {h : HeadRef} {b : SbRef} {m' : Men} (hs : Entered s)
    (hh : meGetBufHead s.sys.men r.headnr = some h) (h0 : 0 ≤ r.subnr)
    (hlt : r.subnr < (s.sys.men.head h).bufs.length) (hb : s.sys.men.sbInUse b = false)
    (hfree : ¬ SlotTaken s (.store r b))
    (hput : m' = putUserbuf s.sys.men r h b ∨ ∃ c, m' = addToFree (putUserbuf s.sys.men r h b) c (.sb b)) :
    Entered
      { sys := { s.sys with men := m' }
        adding := s.adding.erase r
        registered := ⟨h, r.subnr.toNat, b⟩ :: s.registered } := by
  have hlist := meGetBufHead_mem hh
  have hheads : h ∈ s.sys.men.heads := mem_heads.mpr (.inl hlist)
  have hlt' : r.subnr.toNat < (s.sys.men.head h).bufs.length := by omega
  have hempty : ((s.sys.men.head h).bufs[r.subnr.toNat]?).join = none := by
    rw [Option.join_eq_none_iff]
    cases hslot : (s.sys.men.head h).bufs[r.subnr.toNat]? with
    | none => exact .inl rfl
    | some slot =>
      cases slot with
      | none => exact .inr rfl
      | some b' => exact absurd ⟨h, b', hh, hslot⟩ hfree
  have hsame : SameRegs (putUserbuf s.sys.men r h b) m' := by
    rcases hput with rfl | ⟨c, rfl⟩
    · exact .refl _
    · exact .setChan ..
  have hnone : ∀ g : Registration, g.In s.sys.men → ¬ (g.head = h ∧ g.slot = r.subnr.toNat) := by
    rintro g ⟨_, hslot⟩ ⟨hgh, hgs⟩
    rw [hgh, hgs] at hslot
    exact hfree ⟨h, g.buf, hh, hslot⟩
  refine ⟨(putUserbuf_registry hs.registry hlist h0 hlt hempty hb).congr hsame, ?_, fun g => ?_⟩
  · refine List.pairwise_cons.mpr ⟨fun g hg he => ?_, hs.once⟩
    exact hnone g ((hs.filled g).mp hg) ⟨he.1.symm, he.2.symm⟩
  · rw [Registration.in_congr hsame, putUserbuf_in hheads hlt', List.mem_cons, hs.filled]
    exact or_congr_right ⟨fun hg => ⟨hg, hnone g hg⟩, And.left⟩

theorem addStep_entered {s t : Desk} {e : AddEvent} (hs : Entered s) (h : addStep s e = .ok t) :
    (¬ SlotTaken s e → Entered t) ∧ (NoneLost t → ¬ SlotTaken s e) := by
  cases e with
  | other e =>
    refine ⟨fun _ => ?_, fun _ hst => hst⟩
    simp only [addStep] at h
    split_ifs at h with he
    obtain ⟨sys, h₁, h⟩ := bind_ok.mp h
    cases h
    have he : e.isAdd = false := by simpa using he
    refine ⟨step_registry hs.registry h₁, hs.once.filter _, fun g => ?_⟩
    rw [List.mem_filter, hs.filled, step_in hs.registry he h₁]
    simp
  | check r =>
    refine ⟨fun _ => ?_, fun _ hst => hst⟩
    simp only [addStep] at h
    split_ifs at h
    obtain ⟨ret, _, h⟩ := bind_ok.mp h
    cases ret with
    | none | some =>
      cases h
      exact ⟨hs.registry, hs.once, hs.filled⟩
  | abandon r =>
    refine ⟨fun _ => ?_, fun _ hst => hst⟩
    simp only [addStep] at h
    split_ifs at h
    cases h
    exact ⟨hs.registry, hs.once, hs.filled⟩
  | store r b =>
    simp only [addStep] at h
    split_ifs at h with hready
    obtain ⟨_, _, hb⟩ := hready
    obtain ⟨⟨m', ret⟩, h₁, h⟩ := bind_ok.mp h
    rcases menCreateUserbufStore_cases h₁ with ⟨rfl, hne, hgone⟩ | ⟨hd, rfl, hh, h0, hlt, hput⟩
    · cases ret with
      | none => exact absurd rfl hne
      | some e =>
        cases h
        refine ⟨fun _ => ⟨hs.registry, hs.once, hs.filled⟩, fun _ => ?_⟩
        rintro ⟨hd, _, hh, _⟩
        rw [hgone] at hh
        cases hh
    · rw [hh] at h
      cases h
      have hslots : m' = putUserbuf s.sys.men r hd b ∨
          ∃ c, m' = addToFree (putUserbuf s.sys.men r hd b) c (.sb b) :=
        hput.imp And.right fun ⟨c, _, he⟩ => ⟨c, he⟩
      refine ⟨fun hfree => store_entered hs hh h0 hlt hb hfree hslots, ?_⟩
      rintro hlost ⟨hd', b', hh', hslot⟩
      obtain rfl : hd = hd' := Option.some.inj (hh.symm.trans hh')
      have hmem : (⟨hd, r.subnr.toNat, b'⟩ : Registration) ∈ s.registered :=
        (hs.filled _).mpr ⟨mem_heads.mpr (.inl (meGetBufHead_mem hh)), hslot⟩
      exact (List.pairwise_cons.mp hlost.once).1 _ hmem ⟨rfl, rfl⟩

def deskProbe (activeFpgas : Nat) (dmacnt : List Nat) (fpga : ChanRef → Nat) (fifo : UInt32) : Desk :=
  { sys := sysProbe activeFpgas dmacnt fpga fifo }

theorem entered_probe (activeFpgas : Nat) (dmacnt : List Nat) (fpga : ChanRef → Nat) (fifo : UInt32) :
    Entered (deskProbe activeFpgas dmacnt fpga fifo) where
  registry := registry_probe activeFpgas dmacnt fpga fifo
  once := .nil
  filled g := by simp [deskProbe, sysProbe, menProbe, Registration.In, Men.heads]

theorem registrations_kept_iff (activeFpgas : Nat) (dmacnt : List Nat) (fpga : ChanRef → Nat) (fifo : UInt32)
    (es : List AddEvent) :
    Always addStep NoneLost (deskProbe activeFpgas dmacnt fpga fifo) es ↔
      Meets addStep (fun s e => ¬ SlotTaken s e) (deskProbe activeFpgas dmacnt fpga fifo) es :=
  always_iff_meets (fun _ => Entered.noneLost) (fun _ _ _ => addStep_entered) (entered_probe ..) es

/-- Two requests for the slot 0 of the head 0, both of which look before one of them stores. -/
def sameSlotTwice : List AddEvent :=
  let r : IoRange := { start := 0, length := 4096, subnr := 0, headnr := 0 }
  [.other (.run (.createHead 1 (some 0))), .check r, .check r, .store r 0, .store r 1]

theorem registration_lost : ∃ t, run addStep (deskProbe 1 [1] (fun _ => 0) 8) sameSlotTwice = .ok t ∧
    ¬ NoneLost t := by
  obtain ⟨t, ht, hp⟩ := exists_of_check addStep (deskProbe 1 [1] (fun _ => 0) 8) sameSlotTwice
    (fun t => decide (t.registered = [⟨0, 0, 1⟩, ⟨0, 0, 0⟩])) (by decide +kernel)
  refine ⟨t, ht, fun hlost => ?_⟩
  have hreg : t.registered = [⟨0, 0, 1⟩, ⟨0, 0, 0⟩] := of_decide_eq_true hp
  have honce := hlost.once
  rw [hreg] at honce
  exact (List.pairwise_cons.mp honce).1 _ List.mem_cons_self ⟨rfl, rfl⟩

end MenableDriver
