import MenableDriver.Dma.Effects
import MenableDriver.Sgl.Release
import MenableDriver.Sgl.UserRange

/-!
# The steps of a registration

`men_create_userbuf` takes a table of pages, the pages themselves, the structure of the buffer,
its scatterlist, the first node of the list for the device, the mapping and the list, one after
the other. Every exit falls through those of the steps before. `get_page_addresses` returns the
number of pages it asked for, also when fewer were pinned.
-/

namespace MenableDriver

set_option autoImplicit false

/-- `page i` is what the `i`-th entry of the table refers to. The list for the device has a
ledger of its own. -/
inductive UserbufResource
  | table
  | page (i : Nat)
  | dmaBuf
  | sg
  | mapping
deriving DecidableEq

def pageRefs (n : Nat) : List UserbufResource := (List.range n).map .page

/-- `create_buf` and `free_buf` of a board, for which a list is freed once. -/
structure SglBoard where
  β : Type
  createBuf : Nat → List DmaSegment → Ledger SglResource →
    Except SglFailure (UserSgl β) × Ledger SglResource
  freeBuf : List (SglNode β) → BitVec 64 → Ledger SglResource → Ledger SglResource
  dummy : BitVec 64
  freedOnce : ∀ bufLength segs others,
    FreedOnce freeBuf dummy others (createBuf bufLength segs { taken := .node 0 :: others })

def me5Board (pool : SglAllocator) (dummy dummypage : BitVec 64) (hlive : LiveBlocks pool dummy) :
    SglBoard where
  β := Me5Sgl
  createBuf := fun _ segs => me5CreateUserbuf pool (me5CreateDummybuf dummy dummypage) (segs.map (·.addr))
  freeBuf := me5FreeSgl
  dummy := dummy
  freedOnce := fun _ segs others => me5CreateUserbuf_freedOnce hlive dummypage (segs.map (·.addr)) others

def me6Board (pool : SglAllocator) (dummy : BitVec 64) (hlive : LiveBlocks pool dummy)
    (pcieDeviceCtrl : BitVec 16) : SglBoard where
  β := SglBlock
  createBuf := me6CreateUserbufChain pool pcieDeviceCtrl
  freeBuf := me6FreeSgl
  dummy := dummy
  freedOnce := me6CreateUserbufChain_freedOnce hlive pcieDeviceCtrl

/-- What the kernel answers: the lengths of the areas that `find_vma` finds, the number of pages
that `pin_user_pages` pins, the segments that `dma_map_sg` makes of the scatterlist, and the
board as it is when the lock is taken again. -/
structure UserbufSteps where
  vmas : List Nat
  vmallocPages : Bool
  pinned : Except Errno Nat
  kzallocBuf : Bool
  vzallocSg : Bool
  kzallocChain : Bool
  mapped : List DmaSegment
  men : Men
  sb : SbRef

/-- The areas behind the first one, up to the length of the buffer. -/
def nextVmas (length : Nat) : List Nat → Nat → Bool
  | [], runlen => !decide (runlen < length)
  | vma :: vmas, runlen => if runlen < length then nextVmas length vmas (runlen + vma) else true

/-- A table of no entries is refused by `vmalloc`. -/
def getPageAddresses (s : UserbufSteps) (addr length : Nat) (l : Ledger UserbufResource) :
    Except Errno Nat × Ledger UserbufResource :=
  match s.vmas with
  | [] => (.error .EFAULT, l)
  | vma :: vmas =>
    let len := numPages addr length
    if s.vmallocPages = false ∨ len = 0 then (.error .ENOMEM, l)
    else
      let l := l.take .table
      if nextVmas length vmas vma then
        match s.pinned with
        | .error e => (.error e, l.release .table)
        | .ok ret => (.ok len, l.takeAll (pageRefs ret))
      else (.error .EFAULT, l.release .table)

/-! ### The exits -/

def failDmaBuf (pages : Bool) (numPages : Nat) (l : Ledger UserbufResource) : Ledger UserbufResource :=
  if pages then (l.releaseAll (pageRefs numPages)).release .table else l

def failSg (pages : Bool) (numPages : Nat) (l : Ledger UserbufResource) : Ledger UserbufResource :=
  failDmaBuf pages numPages (l.release .dmaBuf)

def failDmat (pages : Bool) (numPages : Nat) (l : Ledger UserbufResource) : Ledger UserbufResource :=
  failSg pages numPages (l.release .sg)

/-- The table is freed already; the pages are those of the scatterlist. -/
def failMap (numPages : Nat) (l : Ledger UserbufResource) : Ledger UserbufResource :=
  failDmat false numPages (l.releaseAll (pageRefs numPages))

def failCreate (numPages : Nat) (l : Ledger UserbufResource) : Ledger UserbufResource :=
  failMap numPages (l.release .mapping)

/-- `men_destroy_sb` after `free_buf`. -/
def menDestroySbPages (numSgEntries : Nat) (l : Ledger UserbufResource) : Ledger UserbufResource :=
  (((l.release .mapping).releaseAll (pageRefs numSgEntries)).release .sg).release .dmaBuf

/-- `before` is the board when the lock was taken for the last time and `after` when it was
released; `sgPages` are the entries of the table that the scatterlist was set to. -/
structure UserbufResult where
  ret : Ret
  before : Men
  after : Men
  resources : Ledger UserbufResource
  sgl : Ledger SglResource
  sgPages : List Nat

/-- `menCreateUserbuf` step by step. -/
def menCreateUserbufSteps (board : SglBoard) (s : UserbufSteps) (m : Men) (r : IoRange) : Res UserbufResult :=
  match menCreateUserbufCheck m r with
  | .error h => .error h
  | .ok (some e) => .ok ⟨some e, m, m, {}, {}, []⟩
  | .ok none =>
    match getPageAddresses s r.start r.length {} with
    | (.error e, l) => .ok ⟨some e, m, m, l, {}, []⟩
    | (.ok numPages, l) =>
      if s.kzallocBuf then
        let l := l.take .dmaBuf
        if s.vzallocSg then
          let l := l.take .sg
          if s.kzallocChain then
            let sgl : Ledger SglResource := { taken := [.node 0] }
            let sgPages := List.range numPages
            let l := l.release .table
            if s.mapped.isEmpty then .ok ⟨some .ENOMEM, m, m, failMap numPages l, sgl, sgPages⟩
            else
              let l := l.take .mapping
              match board.createBuf r.length s.mapped sgl with
              | (.error .bug, _) => .error .bugOn
              | (.error .noMem, sgl) => .ok ⟨some .ENOMEM, m, m, failCreate numPages l, sgl, sgPages⟩
              | (.ok buf, sgl) =>
                match menCreateUserbufStore s.men r s.sb with
                | .error h => .error h
                | .ok (m', some e) =>
                  .ok ⟨some e, s.men, m', menDestroySbPages numPages l, board.freeBuf buf.chain buf.dma
                    sgl, sgPages⟩
                | .ok (m', none) => .ok ⟨none, s.men, m', l, sgl, sgPages⟩
          else .ok ⟨some .ENOMEM, m, m, failDmat true numPages l, {}, []⟩
        else .ok ⟨some .ENOMEM, m, m, failSg true numPages l, {}, []⟩
      else .ok ⟨some .ENOMEM, m, m, failDmaBuf true numPages l, {}, []⟩

/-- After a failure all that was taken is released once and the board is as before; after a
success the pages of the scatterlist are pinned. -/
def AllOrNothing (res : UserbufResult) : Prop :=
  match res.ret with
  | some _ => res.resources.Holds [] ∧ res.sgl.Holds [] ∧ res.after = res.before
  | none => ∀ i ∈ res.sgPages, .page i ∈ res.resources.taken ∧ .page i ∉ res.resources.released

/-- The call comes to `pin_user_pages`, which pins `p` pages. -/
structure Pins (s : UserbufSteps) (r : IoRange) (p : Nat) : Prop where
  areas : ∃ vma vmas, s.vmas = vma :: vmas ∧ nextVmas r.length vmas vma = true
  table : s.vmallocPages = true
  pages : numPages r.start r.length ≠ 0
  pinned : s.pinned = .ok p

/-- No step gives less than what was asked for without an error: all pages are pinned, and the
mapping has a segment. -/
def AllGranted (s : UserbufSteps) (m : Men) (r : IoRange) : Prop :=
  menCreateUserbufCheck m r = .ok none → ∀ p, Pins s r p →
    p = numPages r.start r.length ∧
      (s.kzallocBuf = true → s.vzallocSg = true → s.kzallocChain = true → s.mapped ≠ [])

/-! ### The exits give back what was taken -/

variable {l : Ledger UserbufResource} {n p : Nat} {rest : List UserbufResource}

theorem pageRefs_length (n : Nat) : (pageRefs n).length = n := by
  rw [pageRefs, List.length_map, List.length_range]

theorem mem_pageRefs {i : Nat} : .page i ∈ pageRefs n ↔ i < n := by
  simp [pageRefs]

/-- The number of pages is determined by what is held. -/
theorem holds_pages_iff (h : l.Holds (pageRefs p ++ rest)) : l.Holds (pageRefs n ++ rest) ↔ n = p := by
  constructor
  · intro h'
    have hlength := (h'.unique h).length_eq
    rw [List.length_append, List.length_append, pageRefs_length, pageRefs_length] at hlength
    omega
  · rintro rfl
    exact h

theorem failDmaBuf_holds (h : l.Holds (pageRefs p ++ [.table])) : (failDmaBuf true n l).Holds [] ↔ n = p := by
  rw [failDmaBuf, if_pos rfl, Ledger.holds_release, Ledger.holds_releaseAll]
  exact holds_pages_iff h

theorem failSg_holds (h : l.Holds (.dmaBuf :: (pageRefs p ++ [.table]))) :
    (failSg true n l).Holds [] ↔ n = p :=
  failDmaBuf_holds h.release

theorem failDmat_holds (h : l.Holds (.sg :: .dmaBuf :: (pageRefs p ++ [.table]))) :
    (failDmat true n l).Holds [] ↔ n = p :=
  failSg_holds h.release

theorem failMap_holds (h : l.Holds (pageRefs p ++ [.sg, .dmaBuf])) : (failMap n l).Holds [] ↔ n = p := by
  rw [failMap, failDmat, failSg, failDmaBuf, if_neg Bool.false_ne_true, Ledger.holds_release,
    Ledger.holds_release, Ledger.holds_releaseAll]
  exact holds_pages_iff h

theorem failCreate_holds (h : l.Holds (.mapping :: (pageRefs p ++ [.sg, .dmaBuf]))) :
    (failCreate n l).Holds [] ↔ n = p :=
  failMap_holds h.release

/-- Destroying a buffer is the exit behind the list for the device. -/
theorem menDestroySbPages_eq (n : Nat) (l : Ledger UserbufResource) : menDestroySbPages n l =
    failCreate n l := rfl

/-- What is held when the pages are there, and when the scatterlist is set. -/
theorem getPageAddresses_cases {s : UserbufSteps} {r : IoRange} {a : Except Errno Nat}
    (h : getPageAddresses s r.start r.length {} = (a, l)) :
    ((∃ e, a = .error e) ∧ l.Holds [] ∧ ∀ p, ¬ Pins s r p) ∨
      ∃ p, Pins s r p ∧ a = .ok (numPages r.start r.length) ∧
        l = (Ledger.take {} .table).takeAll (pageRefs p) := by
  unfold getPageAddresses at h
  split at h
  · rename_i hvmas
    cases h
    refine .inl ⟨⟨_, rfl⟩, Ledger.holds_empty, fun p hpins => ?_⟩
    obtain ⟨vma, vmas, hcons, _⟩ := hpins.areas
    cases hvmas.symm.trans hcons
  · rename_i vma vmas hvmas
    simp only at h
    split_ifs at h with htable hnext
    · cases h
      refine .inl ⟨⟨_, rfl⟩, Ledger.holds_empty, fun p hpins => ?_⟩
      rcases htable with hno | hzero
      · cases hno.symm.trans hpins.table
      · exact hpins.pages hzero
    · rcases hpinned : s.pinned with e | ret
      · rw [hpinned] at h
        cases h
        refine .inl ⟨⟨_, rfl⟩, (Ledger.holds_empty.take _).release, fun p hpins => ?_⟩
        cases hpinned.symm.trans hpins.pinned
      · rw [hpinned] at h
        cases h
        have htaken : s.vmallocPages = true := by simpa using fun h0 => htable (.inl h0)
        exact .inr ⟨ret, ⟨⟨vma, vmas, hvmas, hnext⟩, htaken, fun h0 => htable (.inr h0), hpinned⟩, rfl, rfl⟩
    · cases h
      refine .inl ⟨⟨_, rfl⟩, (Ledger.holds_empty.take _).release, fun p hpins => ?_⟩
      obtain ⟨vma', vmas', hcons, hnext'⟩ := hpins.areas
      cases hvmas.symm.trans hcons
      exact hnext hnext'

theorem table_first (pages : List UserbufResource) :
    List.Perm (UserbufResource.sg :: UserbufResource.dmaBuf :: (pages ++ [UserbufResource.table]))
      (UserbufResource.table :: (pages ++ [UserbufResource.sg, UserbufResource.dmaBuf])) := by
  have htable : List.Perm ((UserbufResource.sg :: UserbufResource.dmaBuf :: pages) ++ [UserbufResource.table])
      ([UserbufResource.table] ++ (UserbufResource.sg :: UserbufResource.dmaBuf :: pages)) :=
    List.perm_append_comm
  have hpages : List.Perm ([UserbufResource.sg, UserbufResource.dmaBuf] ++ pages)
      (pages ++ [UserbufResource.sg, UserbufResource.dmaBuf]) := List.perm_append_comm
  exact htable.trans (hpages.cons _)

theorem menCreateUserbufStore_failed {m m' : Men} {r : IoRange} {b : SbRef} {e : Errno}
    (h : menCreateUserbufStore m r b = .ok (m', some e)) : m' = m := by
  rcases menCreateUserbufStore_cases h with ⟨rfl, _⟩ | ⟨_, hret, _⟩
  · rfl
  · cases hret

theorem allOrNothing_iff {ret : Ret} {before after : Men} {sgl : Ledger SglResource} {sgPages : List Nat}
    {e : Errno} (hret : ret = some e) (hafter : after = before) (hsgl : sgl.Holds []) :
    AllOrNothing ⟨ret, before, after, l, sgl, sgPages⟩ ↔ l.Holds [] := by
  subst hret
  exact ⟨fun h => h.1, fun h => ⟨h, hsgl, hafter⟩⟩

/-- After a success the pages are those that were pinned. -/
theorem pinned_iff {before after : Men} {sgl : Ledger SglResource} (hp : p ≤ n) :
    AllOrNothing ⟨none, before, after,
      ((((((Ledger.take {} .table).takeAll (pageRefs p)).take .dmaBuf).take .sg).release .table).take
        .mapping),
      sgl, List.range n⟩ ↔ n = p := by
  have hpages : ∀ i ∈ List.range n, (UserbufResource.page i ∈ .mapping :: .sg :: .dmaBuf ::
    (pageRefs p ++ [.table]) ∧
      UserbufResource.page i ∉ [UserbufResource.table]) ↔ i < p := by
    intro i _
    simp [mem_pageRefs]
  constructor
  · intro h
    by_contra hne
    have hmem : p ∈ List.range n := List.mem_range.mpr (by omega)
    exact Nat.lt_irrefl p ((hpages p hmem).mp (h p hmem))
  · rintro rfl i hi
    exact (hpages i hi).mpr (List.mem_range.mp hi)

/-- The call is all or nothing unless it goes on with fewer pages than it asked for, or the
mapping has no segment: then the first node of the list stays. -/
theorem userbuf_allOrNothing_iff (board : SglBoard) (s : UserbufSteps) (m : Men) (r : IoRange)
    (hpin : ∀ p, s.pinned = .ok p → p ≤ numPages r.start r.length) {res : UserbufResult}
    (h : menCreateUserbufSteps board s m r = .ok res) : AllOrNothing res ↔ AllGranted s m r := by
  unfold menCreateUserbufSteps at h
  rcases hcheck : menCreateUserbufCheck m r with halt | _ | e
  · rw [hcheck] at h
    cases h
  · rw [hcheck] at h
    rcases hpages : getPageAddresses s r.start r.length {} with ⟨a, l⟩
    rw [hpages] at h
    rcases getPageAddresses_cases hpages with ⟨⟨e, rfl⟩, hl, hno⟩ | ⟨p, hpins, rfl, hl⟩
    · cases h
      rw [allOrNothing_iff rfl rfl Ledger.holds_empty]
      exact iff_of_true hl fun _ p hpins => absurd hpins (hno p)
    · have hgranted : AllGranted s m r ↔ numPages r.start r.length = p ∧
          (s.kzallocBuf = true → s.vzallocSg = true → s.kzallocChain = true → s.mapped ≠ []) := by
        refine ⟨fun h => ?_, fun h _ q hq => ?_⟩
        · obtain ⟨hp, hmap⟩ := h hcheck p hpins
          exact ⟨hp.symm, hmap⟩
        · obtain rfl : p = q := Except.ok.inj (hpins.pinned.symm.trans hq.pinned)
          exact ⟨h.1.symm, h.2⟩
      have hstart : l.Holds (pageRefs p ++ [.table]) := by
        rw [hl]
        exact ((Ledger.holds_empty (α := UserbufResource)).take .table).takeAll _
      have hbuf := hstart.take .dmaBuf
      have hsg := hbuf.take .sg
      rw [hgranted]
      generalize numPages r.start r.length = n at *
      simp only at h
      split_ifs at h with hkb hvs hkc hmapped
      · cases h
        have hleak : ¬ Ledger.Holds { taken := [SglResource.node 0] } [] := fun h' => by
          cases h'.length_eq
        rw [List.isEmpty_iff] at hmapped
        exact iff_of_false (fun h' => hleak h'.2.1) fun h' => h'.2 hkb hvs hkc hmapped
      · have hset : (((l.take .dmaBuf).take .sg).release .table).Holds (pageRefs p ++ [.sg, .dmaBuf]) :=
          Ledger.Holds.release (hsg.perm (table_first (pageRefs p)))
        have hmapping := hset.take .mapping
        have hnonempty : s.mapped ≠ [] := fun h0 => hmapped (List.isEmpty_iff.mpr h0)
        rw [and_iff_left fun _ _ _ => hnonempty]
        have hfreed := board.freedOnce r.length s.mapped []
        rcases hcreate : board.createBuf r.length s.mapped { taken := [.node 0] } with ⟨error | buf, sgl⟩
        · rw [hcreate] at h hfreed
          cases error with
          | bug => cases h
          | noMem =>
            cases h
            rw [allOrNothing_iff rfl rfl hfreed.1, failCreate_holds hmapping]
        · rw [hcreate] at h hfreed
          simp only at h
          rcases hstore : menCreateUserbufStore s.men r s.sb with halt | ⟨m', _ | e⟩
          · rw [hstore] at h
            cases h
          · rw [hstore] at h
            cases h
            subst hl
            exact pinned_iff (hpin p hpins.pinned)
          · rw [hstore] at h
            cases h
            rw [allOrNothing_iff rfl (menCreateUserbufStore_failed hstore) hfreed.1, menDestroySbPages_eq,
              failCreate_holds hmapping]
      · cases h
        rw [allOrNothing_iff rfl rfl Ledger.holds_empty, failDmat_holds hsg]
        exact (and_iff_left fun _ _ h' => absurd h' hkc).symm
      · cases h
        rw [allOrNothing_iff rfl rfl Ledger.holds_empty, failSg_holds hbuf]
        exact (and_iff_left fun _ h' => absurd h' hvs).symm
      · cases h
        rw [allOrNothing_iff rfl rfl Ledger.holds_empty, failDmaBuf_holds hstart]
        exact (and_iff_left fun h' => absurd h' hkb).symm
  · rw [hcheck] at h
    cases h
    rw [allOrNothing_iff rfl rfl Ledger.holds_empty]
    exact iff_of_true Ledger.holds_empty fun hok => by rw [hcheck] at hok; cases hok

/-- A call that succeeds is a check of the slot and, later, its filling. -/
theorem menCreateUserbufSteps_success {board : SglBoard} {s : UserbufSteps} {m : Men} {r : IoRange}
    {res : UserbufResult} (h : menCreateUserbufSteps board s m r = .ok res) (hret : res.ret = none) :
    menCreateUserbufCheck m r = .ok none ∧ menCreateUserbufStore s.men r s.sb = .ok (res.after, none) := by
  unfold menCreateUserbufSteps at h
  split at h
  · cases h
  · cases h
    cases hret
  · rename_i hcheck
    refine ⟨hcheck, ?_⟩
    simp only at h
    split at h
    · cases h
      cases hret
    · split_ifs at h
      · cases h
        cases hret
      · split at h
        · cases h
        · cases h
          cases hret
        · split at h
          · cases h
          · cases h
            cases hret
          · rename_i hstore
            cases h
            exact hstore
      · cases h
        cases hret
      · cases h
        cases hret
      · cases h
        cases hret

/-- A head with one slot. -/
def oneSlot : Men := { headsList := [0], head := fun _ => { id := 0, bufs := [none], numSb_lt := by decide } }

/-- Two pages are mapped as one segment. -/
def twoPages (pinned : Nat) : UserbufSteps where
  vmas := [0x2000]
  vmallocPages := true
  pinned := .ok pinned
  kzallocBuf := true
  vzallocSg := true
  kzallocChain := true
  mapped := [⟨0x20000, 0x2000⟩]
  men := oneSlot
  sb := 7

theorem userbuf_allOrNothing_two :
    ∃ res, menCreateUserbufSteps (me6Board twoBlocks 0x8000 twoBlocks_live 0) (twoPages 2) oneSlot
        ⟨0x1000, 0x2000, 0, 0⟩ = .ok res ∧ AllOrNothing res := by
  refine ⟨_, rfl, ?_⟩
  refine (userbuf_allOrNothing_iff (me6Board twoBlocks 0x8000 twoBlocks_live 0) (twoPages 2) oneSlot
    ⟨0x1000, 0x2000, 0, 0⟩ ?_ rfl).mpr ?_
  · intro p hp
    cases hp
    decide
  · intro _ p hpins
    cases hpins.pinned
    exact ⟨rfl, fun _ _ _ => List.cons_ne_nil _ _⟩

/-- One of the two pages is pinned, and the buffer is registered with both. -/
theorem userbuf_pins_one :
    ∃ res, menCreateUserbufSteps (me6Board twoBlocks 0x8000 twoBlocks_live 0) (twoPages 1) oneSlot
        ⟨0x1000, 0x2000, 0, 0⟩ = .ok res ∧ res.ret = none ∧ res.sgPages = [0, 1] ∧
      .page 1 ∉ res.resources.taken ∧ ¬ AllOrNothing res := by
  refine ⟨_, rfl, rfl, rfl, by decide, fun h => ?_⟩
  exact absurd (h 1 (by decide)).1 (by decide)

end MenableDriver
