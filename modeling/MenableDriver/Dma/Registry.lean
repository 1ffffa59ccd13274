import Mathlib.Data.List.Flatten
import Mathlib.Data.List.Nodup
import Mathlib.Data.List.Pairwise
import MenableDriver.Dma.Links

/-!
# The heads and their buffers

Every buffer is registered once: with one head in one slot, or it was unlinked and waits to
be destroyed. The index of a registered buffer is its slot, the one of a dummy buffer is -1,
and the driver tells the two apart by it.
-/

namespace MenableDriver

set_option autoImplicit false

open Transition

def Men.heads (m : Men) : List HeadRef := m.headsList ++ m.doomedHeads

/-- All buffers there are: the ones that were unlinked, and the ones of every head. -/
def Men.allBufs (m : Men) : List BufRef := m.doomed.map .sb ++ m.heads.flatMap m.regs

structure Registry (m : Men) : Prop where
  heads : m.heads.Nodup
  bufs : m.allBufs.Nodup
  dummy : ∀ h ∈ m.headsList, (m.buf (.dummy h)).index = -1
  sb : ∀ b, 0 ≤ (m.buf (.sb b)).index

section Slots
variable {bufs : List (Option SbRef)} {i : Nat} {b : SbRef}

/-- A slot that is filled adds its buffer to the registered ones. -/
theorem regs_fill (hi : i < bufs.length) (hfree : (bufs[i]?).join = none) :
    ((bufs.set i (some b)).filterMap (Option.map BufRef.sb)).Perm
      (.sb b :: bufs.filterMap (Option.map BufRef.sb)) := by
  have hslot : bufs[i] = none := by simpa [hi] using hfree
  have hsplit : bufs = bufs.take i ++ none :: bufs.drop (i + 1) := by
    rw [← hslot, List.getElem_cons_drop, List.take_append_drop]
  have hset : bufs.set i (some b) = bufs.take i ++ some b :: bufs.drop (i + 1) := by
    rw [List.set_eq_take_append_cons_drop, if_pos hi]
  have hbefore : bufs.filterMap (Option.map BufRef.sb) =
      (bufs.take i).filterMap (Option.map BufRef.sb) ++
        (bufs.drop (i + 1)).filterMap (Option.map BufRef.sb) := by
    conv_lhs => rw [hsplit]
    rw [List.filterMap_append, List.filterMap_cons_none rfl]
  have hsome : (some b :: bufs.drop (i + 1)).filterMap (Option.map BufRef.sb) =
      .sb b :: (bufs.drop (i + 1)).filterMap (Option.map BufRef.sb) := rfl
  rw [hset, hbefore, List.filterMap_append, hsome]
  exact List.perm_middle

theorem regs_clear (hb : bufs[i]? = some (some b)) :
    (bufs.filterMap (Option.map BufRef.sb)).Perm
      (.sb b :: (bufs.set i none).filterMap (Option.map BufRef.sb)) := by
  obtain ⟨hi, hslot⟩ := List.getElem?_eq_some_iff.mp hb
  have hset : (bufs.set i none).set i (some b) = bufs := by
    rw [List.set_set, ← hslot, List.set_getElem_self]
  have hi' : i < (bufs.set i none).length := by simpa using hi
  have hfill := regs_fill (b := b) hi' (by simp [hi])
  rwa [hset] at hfill

end Slots

/-- One member of the list has one item more. -/
theorem flatMap_perm_cons {α β : Type} [DecidableEq α] {l : List α} {f g : α → List β} {a : α} {b : β}
    (hl : l.Nodup) (ha : a ∈ l) (hab : (g a).Perm (b :: f a)) (ho : ∀ a' ∈ l, a' ≠ a → g a' = f a') :
    (l.flatMap g).Perm (b :: l.flatMap f) := by
  have hperm := List.perm_cons_erase ha
  have hrest : (l.erase a).flatMap g = (l.erase a).flatMap f := List.flatMap_congr fun x hx => by
    obtain ⟨hne, hmem⟩ := hl.mem_erase_iff.mp hx
    exact ho x hmem hne
  calc (l.flatMap g).Perm ((a :: l.erase a).flatMap g) := hperm.flatMap_right g
    _ = g a ++ (l.erase a).flatMap f := by rw [List.flatMap_cons, hrest]
    List.Perm _ (b :: f a ++ (l.erase a).flatMap f) := hab.append_right _
    _ = b :: (a :: l.erase a).flatMap f := by rw [List.flatMap_cons, List.cons_append]
    List.Perm _ (b :: l.flatMap f) := (hperm.symm.flatMap_right f).cons b

variable {m m' m'' : Men} {c : ChanRef} {o : Outcome}

/-- Heads and buffers stay; the links of the heads may change. -/
structure SameRegs (m m' : Men) : Prop where
  slots : ∀ h, (m'.head h).bufs = (m.head h).bufs
  headsList : m'.headsList = m.headsList
  doomed : m'.doomed = m.doomed
  doomedHeads : m'.doomedHeads = m.doomedHeads
  index : ∀ b, (m'.buf b).index = (m.buf b).index

namespace SameRegs

theorem refl (m : Men) : SameRegs m m := ⟨fun _ => rfl, rfl, rfl, rfl, fun _ => rfl⟩

theorem trans (h : SameRegs m m') (h' : SameRegs m' m'') : SameRegs m m'' where
  slots hd := (h'.slots hd).trans (h.slots hd)
  headsList := h'.headsList.trans h.headsList
  doomed := h'.doomed.trans h.doomed
  doomedHeads := h'.doomedHeads.trans h.doomedHeads
  index b := (h'.index b).trans (h.index b)

theorem of_board (h : SameBoard m m') : SameRegs m m' :=
  ⟨fun _ => by rw [h.head], h.headsList, h.doomed, h.doomedHeads, h.index⟩

theorem setChan (m : Men) (c : ChanRef) (ch : Dmachan) : SameRegs m (m.setChan c ch) :=
  .of_board (.setChan m c ch)

theorem setLink (m : Men) (h : HeadRef) (l : Option ChanRef) : SameRegs m (m.setLink h l) :=
  ⟨fun _ => setLink_bufs, rfl, rfl, rfl, fun _ => rfl⟩

theorem regs (h : SameRegs m m') : m'.regs = m.regs := by
  funext hd
  rw [Men.regs, h.slots hd, Men.regs]

theorem heads (h : SameRegs m m') : m'.heads = m.heads := by
  rw [Men.heads, h.headsList, h.doomedHeads, Men.heads]

end SameRegs

theorem unlinkActive_sameRegs (m : Men) (c : ChanRef) (h : HeadRef) : SameRegs m (unlinkActive m c h) := by
  unfold unlinkActive
  split
  · exact .refl m
  · split_ifs
    · exact .setLink ..
    · exact .refl m

theorem startPrepared_sameRegs (m : Men) (c : ChanRef) (h : HeadRef) (startbuf : Nat) :
    SameRegs m (startPrepared m c h startbuf) := by
  rw [startPrepared_eq, startCleared]
  exact (((unlinkActive_sameRegs m c h).trans (.setChan ..)).trans
    (.of_board (.of_onChan (cleanBhLoop_frame _)))).trans (.setLink ..)

theorem startdma_sameRegs {hw : StartHw} {ret : Ret} (hc : startdma m c hw = .ok (m', ret)) :
    SameRegs m m' :=
  (SameRegs.setChan m c _).trans (.of_board (.of_onChan (startdma_frame hc)))

theorem menStartDma_sameRegs {h : HeadRef} {startbuf : Nat} {hw : StartHw} {current : Tgid} {ret : Ret}
    (hc : menStartDma m c h startbuf hw current = .ok (m', ret)) : SameRegs m m' := by
  have hp := startPrepared_sameRegs m c h startbuf
  rcases menStartDma_cases hc with ⟨_, rfl, _⟩
    | ⟨_, ⟨_, _, rfl, _⟩ | ⟨_, m₁, r, h₁, ⟨e, _, rfl, _⟩ | ⟨_, rfl, _⟩⟩⟩
  · exact .refl _
  · exact hp.trans (.setChan ..)
  · exact (hp.trans (startdma_sameRegs h₁)).trans (.setChan ..)
  · exact (hp.trans (startdma_sameRegs h₁)).trans ⟨fun _ => rfl, rfl, rfl, rfl, fun _ => rfl⟩

theorem fgStartTail_sameRegs {w : StartWait} {hw : StartHw} {current : Tgid} {ret : Ret}
    (hc : fgStartTail m w hw current = .ok (m', ret)) : SameRegs m m' := by
  have hs : SameRegs m (fgStartSetup m w.fgr w.chan) := .setChan ..
  rcases fgStartTail_cases hc with ⟨_, h₁⟩ | ⟨e, m₁, _, h₁, h₂⟩
  · exact hs.trans (menStartDma_sameRegs h₁)
  · obtain ⟨_, _, rfl⟩ := menDmaCleanHalt_ok.mp h₂
    exact (hs.trans (menStartDma_sameRegs h₁)).trans (.setChan ..)

theorem Call.Starts.sameRegs {w : StartWait} {current : Tgid} {k : Call} (hk : k.Starts w current)
    (h : call m k = .ok (m', o)) : SameRegs m m' := by
  rcases hk.runs h with ⟨rfl, _⟩ | ⟨_, _, _, h₁, _⟩
  · exact .refl _
  · exact fgStartTail_sameRegs h₁

namespace Registry

theorem mem_allBufs {h : HeadRef} {b : BufRef} (hh : h ∈ m.heads) (hb : b ∈ m.regs h) : b ∈ m.allBufs :=
  List.mem_append_right _ (List.mem_flatMap.mpr ⟨h, hh, hb⟩)

theorem regs_nodup {h : HeadRef} (hr : Registry m) (hh : h ∈ m.heads) : (m.regs h).Nodup :=
  (List.nodup_flatMap.mp hr.bufs.of_append_right).1 h hh

/-- No buffer is registered with two heads. -/
theorem regs_disjoint {h h' : HeadRef} {b : BufRef} (hr : Registry m) (hh : h ∈ m.heads) (hh' : h' ∈ m.heads)
    (hne : h' ≠ h) (hb : b ∈ m.regs h) : b ∉ m.regs h' := by
  have hpair := (List.nodup_flatMap.mp hr.bufs.of_append_right).2
  have hsym : Std.Symm (Function.onFun List.Disjoint m.regs) := ⟨fun _ _ hd _ hx hx' => hd hx' hx⟩
  exact fun hb' => hpair.forall hh' hh hne hb' hb

theorem congr (hr : Registry m) (hs : SameRegs m m') : Registry m' where
  heads := by
    rw [hs.heads]
    exact hr.heads
  bufs := by
    rw [Men.allBufs, hs.heads, hs.doomed, hs.regs]
    exact hr.bufs
  dummy h hh := by
    rw [hs.index]
    exact hr.dummy h (hs.headsList ▸ hh)
  sb b := by
    rw [hs.index]
    exact hr.sb b

end Registry

theorem setSlot_regs {h h' : HeadRef} {i : Nat} {slot : Option SbRef} (hne : h' ≠ h) :
    (m.setSlot h i slot).regs h' = m.regs h' := by simp [Men.regs, Men.setSlot, hne]

theorem setSlot_regs_self {h : HeadRef} {i : Nat} {slot : Option SbRef} :
    (m.setSlot h i slot).regs h = ((m.head h).bufs.set i slot).filterMap (Option.map .sb) := by
  simp [Men.regs, Men.setSlot]

theorem mem_regs {h : HeadRef} {b : SbRef} : .sb b ∈ m.regs h ↔ some b ∈ (m.head h).bufs := by
  simp [Men.regs]

theorem exists_sb_of_mem_regs {h : HeadRef} {b : BufRef} (hb : b ∈ m.regs h) : ∃ sb, b = .sb sb := by
  simp only [Men.regs, List.mem_filterMap] at hb
  obtain ⟨slot, _, hs⟩ := hb
  cases slot with
  | none => cases hs
  | some sb => exact ⟨sb, (Option.some.inj hs).symm⟩

theorem dummy_not_mem_regs {h h' : HeadRef} : .dummy h' ∉ m.regs h := by simp [Men.regs]

theorem mem_heads {h : HeadRef} : h ∈ m.heads ↔ h ∈ m.headsList ∨ h ∈ m.doomedHeads := List.mem_append

theorem headInUse_iff {h : HeadRef} : m.headInUse h = true ↔ h ∈ m.heads := by
  simp [Men.headInUse, mem_heads]

theorem sbInUse_iff {b : SbRef} : m.sbInUse b = true ↔ .sb b ∈ m.allBufs := by
  simp [Men.sbInUse, Men.allBufs, Men.heads, Men.regs]

section Calls

theorem menCreateBufHead_registry {subbufs : Int} {mem : Option HeadRef} {r : Except Errno Nat}
    (hr : Registry m) (hc : menCreateBufHead m subbufs mem = .ok (m', r)) : Registry m' := by
  rcases menCreateBufHead_cases hc with rfl | ⟨h, hd, hu, _, hbufs, rfl⟩
  · exact hr
  · have hnew : h ∉ m.heads := by
      rw [← headInUse_iff, hu]
      simp
    have hl : h ∉ m.headsList := fun hm => hnew (mem_heads.mpr (.inl hm))
    have hperm : (h :: m.heads).Perm (m.headsList ++ [h] ++ m.doomedHeads) := by
      rw [List.append_assoc]
      exact List.perm_middle.symm
    let m₁ := (m.setHead h hd).modBuf (.dummy h) fun _ =>
      { index := -1, bufLength := 18446744073709551615 }
    have hself : m₁.regs h = [] := by simp [m₁, Men.regs, hbufs]
    have hothers : m.heads.flatMap m₁.regs = m.heads.flatMap m.regs := List.flatMap_congr fun h' hh' => by
      have hne : h' ≠ h := fun he => hnew (he ▸ hh')
      simp [m₁, Men.regs, hne]
    refine ⟨hperm.nodup_iff.mp (List.nodup_cons.mpr ⟨hnew, hr.heads⟩), ?_, fun h' hh' => ?_, fun b => ?_⟩
    · have hflat : ((m.headsList ++ [h] ++ m.doomedHeads).flatMap m₁.regs).Perm (m.heads.flatMap m.regs) := by
        apply (hperm.symm.flatMap_right _).trans
        rw [List.flatMap_cons, hself, List.nil_append, hothers]
      exact (hflat.append_left _).nodup_iff.mpr hr.bufs
    · by_cases he : h' = h
      · simp [he]
      · have hold : h' ∈ m.headsList := by simpa [he] using hh'
        simpa [he] using hr.dummy h' hold
    · simpa using hr.sb b

theorem addToFree_registry {b : BufRef} (hr : Registry m) : Registry (addToFree m c b) :=
  hr.congr (.setChan ..)

theorem putUserbuf_registry {r : IoRange} {h : HeadRef} {b : SbRef} (hr : Registry m) (hh : h ∈ m.headsList)
    (h0 : 0 ≤ r.subnr) (hlt : r.subnr < (m.head h).bufs.length)
    (hfree : ((m.head h).bufs[r.subnr.toNat]?).join = none) (hb : m.sbInUse b = false) :
    Registry (putUserbuf m r h b) := by
  have hnew : .sb b ∉ m.allBufs := by
    rw [← sbInUse_iff, hb]
    simp
  have hheads : h ∈ m.heads := mem_heads.mpr (.inl hh)
  have hself : ((putUserbuf m r h b).regs h).Perm (.sb b :: m.regs h) := by
    have hi : r.subnr.toNat < (m.head h).bufs.length := by omega
    rw [putUserbuf, setSlot_regs_self]
    exact regs_fill hi hfree
  have hothers : ∀ h' ∈ m.heads, h' ≠ h → (putUserbuf m r h b).regs h' = m.regs h' := fun h' _ hne => by
    rw [putUserbuf, setSlot_regs hne, Men.modBuf_regs]
  refine ⟨hr.heads, ?_, fun h' hh' => ?_, fun b' => ?_⟩
  · have hperm := (flatMap_perm_cons hr.heads hheads hself hothers).append_left (m.doomed.map .sb)
    exact (hperm.trans List.perm_middle).nodup_iff.mpr (List.nodup_cons.mpr ⟨hnew, hr.bufs⟩)
  · simpa [putUserbuf, Men.setSlot] using hr.dummy h' hh'
  · by_cases he : b' = b
    · simpa [putUserbuf, Men.setSlot, he] using h0
    · simpa [putUserbuf, Men.setSlot, he] using hr.sb b'

theorem menCreateUserbuf_registry {r : IoRange} {mem : Option SbRef} {ret : Ret} (hr : Registry m)
    (hc : menCreateUserbuf m r mem = .ok (m', ret)) : Registry m' := by
  rcases menCreateUserbuf_cases hc with rfl | ⟨h, b, hh, h0, hlt, hfree, hb, h⟩
  · exact hr
  · have hput := putUserbuf_registry hr (meGetBufHead_mem hh) h0 hlt hfree hb
    rcases h with ⟨_, rfl⟩ | ⟨c, _, rfl⟩
    · exact hput
    · exact addToFree_registry hput

theorem dropFromChannel_board {b : BufRef} (hc : dropFromChannel m c b = .ok m') :
    ∃ ch, m' = m.setChan c ch := by
  rcases dropFromChannel_cases hc with ⟨_, rfl⟩ | ⟨_, _, rfl⟩
  · exact ⟨_, rfl⟩
  · exact ⟨_, rfl⟩

/-- The buffer that leaves its slot waits to be destroyed. -/
theorem setSlot_registry {h : HeadRef} {i : Nat} {b : SbRef} (hr : Registry m) (hh : h ∈ m.heads)
    (hb : (m.head h).bufs[i]? = some (some b)) :
    Registry { m.setSlot h i none with doomed := b :: m.doomed } := by
  have hself : (m.regs h).Perm (.sb b :: (m.setSlot h i none).regs h) := by
    rw [setSlot_regs_self]
    exact regs_clear hb
  have hothers : ∀ h' ∈ m.heads, h' ≠ h → m.regs h' = (m.setSlot h i none).regs h' := fun h' _ hne =>
    (setSlot_regs hne).symm
  refine ⟨hr.heads, ?_, hr.dummy, hr.sb⟩
  have hperm := (flatMap_perm_cons hr.heads hh hself hothers).append_left (m.doomed.map .sb)
  exact (hperm.trans List.perm_middle).nodup_iff.mp hr.bufs

theorem menIoctlDelVirtUserBuffer_registry {headnr : Nat} {index : Int} {ret : Ret} (hr : Registry m)
    (hc : menIoctlDelVirtUserBuffer m headnr index = .ok (m', ret)) : Registry m' := by
  rcases menIoctlDelVirtUserBuffer_cases hc with rfl | ⟨h, m₁, hh, h₁, rfl⟩
  · exact hr
  · have hheads : h ∈ m.heads := mem_heads.mpr (.inl (meGetBufHead_mem hh))
    rcases menFreeUserbuf_cases h₁ with ⟨_, hne⟩ | ⟨b, _, h0, hlt, hb, hfree⟩
    · exact absurd rfl hne
    · have hsub : meGetSubBufByHead m h index = some b := meGetSubBufByHead_some.mpr ⟨h0, hb⟩
      rw [hsub]
      rcases hfree with ⟨_, rfl⟩ | ⟨c, m₂, _, _, h₂, rfl⟩
      · exact setSlot_registry hr hheads hb
      · obtain ⟨ch, rfl⟩ := dropFromChannel_board h₂
        have hr₂ : Registry (m.setChan c ch) := hr.congr (.setChan ..)
        exact setSlot_registry hr₂ hheads hb

theorem menReleaseBufHead_registry {h : HeadRef} (hr : Registry m) (hh : h ∈ m.headsList)
    (hc : menReleaseBufHead m h = (m', none)) :
    Registry { m' with doomedHeads := h :: m'.doomedHeads } := by
  have hperm : (m.headsList.erase h ++ h :: m.doomedHeads).Perm m.heads :=
    List.perm_middle.trans ((List.perm_cons_erase hh).symm.append_right _)
  have hbufs : (m.doomed.map BufRef.sb ++ (m.headsList.erase h ++ h :: m.doomedHeads).flatMap m.regs).Nodup :=
    ((hperm.flatMap_right m.regs).append_left _).nodup_iff.mpr hr.bufs
  rcases menReleaseBufHead_cases hc with ⟨_, hne⟩ | ⟨_, ⟨_, rfl⟩ | ⟨c, _, _, rfl⟩⟩
  · exact absurd rfl hne
  · exact ⟨hperm.nodup_iff.mpr hr.heads, hbufs, fun h' hh' => hr.dummy h' (List.mem_of_mem_erase hh'), hr.sb⟩
  · exact ⟨hperm.nodup_iff.mpr hr.heads, hbufs, fun h' hh' => hr.dummy h' (List.mem_of_mem_erase hh'), hr.sb⟩

theorem menCleanupMem_registry (hr : Registry m) (hc : menCleanupMem m m.headsList = .ok m') : Registry m' :=
  menCleanupMem_keeps (fun hh h₁ hr => menReleaseBufHead_registry hr hh h₁) hr.heads.of_append_left hr hc

theorem menDestroySb_registry {b : SbRef} (hr : Registry m) (hc : menDestroySb m b = .ok m') :
    Registry m' := by
  obtain ⟨hb, rfl⟩ := menDestroySb_ok.mp hc
  have hsub : ((m.doomed.erase b).map BufRef.sb ++ m.heads.flatMap m.regs).Sublist m.allBufs :=
    (List.erase_sublist.map _).append_right _
  exact ⟨hr.heads, hr.bufs.sublist hsub, hr.dummy, hr.sb⟩

theorem menFreeBufHead_registry {h : HeadRef} (hr : Registry m) (hc : menFreeBufHead m h = .ok m') :
    Registry m' := by
  obtain ⟨hh, rfl⟩ := menFreeBufHead_ok.mp hc
  have hheads : (m.headsList ++ m.doomedHeads.erase h).Sublist m.heads :=
    List.erase_sublist.append_left m.headsList
  exact ⟨hr.heads.sublist hheads, hr.bufs.sublist ((hheads.flatMap m.regs).append_left _), hr.dummy, hr.sb⟩

theorem call_registry {k : Call} (hr : Registry m) (h : call m k = .ok (m', o)) : Registry m' := by
  by_cases hk : k.keepsBoard = true
  · exact hr.congr (.of_board (call_sameBoard hk h))
  · cases k with
    | createHead subbufs mem =>
      obtain ⟨⟨m₁, r⟩, h₁, h⟩ := bind_ok.mp h
      cases h
      exact menCreateBufHead_registry hr h₁
    | addBuffer r mem =>
      obtain ⟨⟨m₁, ret⟩, h₁, h⟩ := bind_ok.mp h
      cases h
      exact menCreateUserbuf_registry hr h₁
    | delBuffer headnr index =>
      obtain ⟨⟨m₁, ret⟩, h₁, h⟩ := bind_ok.mp h
      cases h
      exact menIoctlDelVirtUserBuffer_registry hr h₁
    | destroySb b =>
      obtain ⟨m₁, h₁, h⟩ := bind_ok.mp h
      cases h
      exact menDestroySb_registry hr h₁
    | freeHead headnr =>
      obtain ⟨ret, h₁⟩ := call_freeHead h
      rcases menIoctlFreeVirtBuffer_cases h₁ with rfl | ⟨hd, m₁, hh, h₂, rfl⟩
      · exact hr
      · exact menReleaseBufHead_registry hr (meGetBufHead_mem hh) h₂
    | destroyHead hd =>
      obtain ⟨m₁, h₁, h⟩ := bind_ok.mp h
      cases h
      exact menFreeBufHead_registry hr h₁
    | cleanupMem =>
      obtain ⟨m₁, h₁, h⟩ := bind_ok.mp h
      cases h
      exact menCleanupMem_registry hr h₁
    | startTail w hw current => exact hr.congr (Call.Starts.sameRegs (.tail hw) h)
    | startRest w hw current => exact hr.congr (Call.Starts.sameRegs (.rest hw) h)
    | _ => exact absurd rfl hk

theorem registry_probe (activeFpgas : Nat) (dmacnt : List Nat) (fpga : ChanRef → Nat) (fifo : UInt32) :
    Registry (menProbe activeFpgas dmacnt fpga fifo) where
  heads := List.nodup_nil
  bufs := List.nodup_nil
  dummy h hh := by cases hh
  sb b := Int.le_refl 0

theorem step_registry {s t : Sys} {e : Event} (hr : Registry s.men) (h : step s e = .ok t) :
    Registry t.men :=
  step_invariant (G := fun _ _ => True) (fun _ _ _ _ hr hc => by
    obtain ⟨o, hc⟩ := callStep_ok.mp hc
    exact call_registry hr hc) (fun _ _ => trivial) hr h

end Calls

end MenableDriver
