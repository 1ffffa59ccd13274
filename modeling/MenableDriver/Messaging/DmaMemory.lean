import MenableDriver.Controllers.Base
import MenableDriver.Data.Ledger

/-!
# The memory of the messaging DMA

`me6_impulse_init_messaging_dma_mem` takes a page for every messaging buffer and keeps the
addresses of the pages in one table and their bus addresses in another. When it cannot take
all of them it goes back over the tables, but the one that it looks for the bus addresses in is
a local pointer that was never set.
-/

namespace MenableDriver

set_option autoImplicit false

def PCI_PAGE_SIZE : Nat := 4096

/-- The part of a `messaging_dma_declaration` that is read here. -/
structure MessagingDmaDeclaration where
  numBuffers : BitVec 32
deriving DecidableEq

def me6ImpulseMessagingDmaDeclaration : MessagingDmaDeclaration where
  numBuffers := 128

/-- A page for the device, with its two addresses. -/
structure DmaPage where
  address : BitVec 64
  bus : BitVec 64
deriving DecidableEq

inductive MessagingResource
  | table (address : BitVec 64)
  | page (size : Nat) (address bus : BitVec 64)
deriving DecidableEq

/-- What the kernel gives for the tables and for the `k`-th page. An array that it gives is
smaller than an `int` counts. -/
structure MessagingAllocator where
  buffersArray : BitVec 32 → Option (BitVec 64)
  busAddressesArray : BitVec 32 → Option (BitVec 64)
  dmaAllocCoherent : Nat → Option DmaPage
  pageSize : Nat
  array_lt : ∀ n, (buffersArray n).isSome → n.toNat < 2 ^ 31

/-- An array of `kmalloc_array`; nothing is known of an entry before it is written. -/
structure AddressTable where
  address : BitVec 64
  length : Nat
  entries : Nat → Option (BitVec 64) := fun _ => none

/-- What `me6` and `men` keep of it. -/
structure MessagingDmaMem where
  declaration : Option MessagingDmaDeclaration := none
  buffers : Option AddressTable := none
  busAddresses : Option AddressTable := none
  ledger : Ledger MessagingResource := {}

/-! ### Tables and counters; `none` is a fault -/

def readTable (t : Option AddressTable) (i : Nat) : Option (BitVec 64) :=
  t.bind fun t => if i < t.length then t.entries i else none

def writeTable (t : Option AddressTable) (i : Nat) (a : BitVec 64) : Option AddressTable :=
  t.bind fun t =>
    if i < t.length then some { t with entries := Function.update t.entries i (some a) } else none

/-- `++i` of an `int`. -/
def incrementInt (i : Nat) : Option Nat := if i + 1 < 2 ^ 31 then some (i + 1) else none

/-- `kfree` takes NULL, too. -/
def kfreeTable (t : Option AddressTable) (l : Ledger MessagingResource) : Ledger MessagingResource :=
  match t with
  | none => l
  | some t => l.release (.table t.address)

/-! ### Initialisation -/

/-- The loop over the buffers, of which `k` are left; the index of the first one that there is
no page for. -/
def allocBuffers (env : MessagingAllocator) :
    Nat → Nat → MessagingDmaMem → Option (Option Nat × MessagingDmaMem)
  | 0, _, m => some (none, m)
  | k + 1, bufIdx, m =>
    match env.dmaAllocCoherent bufIdx with
    | none => some (some bufIdx, m)
    | some p =>
      let l := m.ledger.take (.page PCI_PAGE_SIZE p.address p.bus)
      (writeTable m.buffers bufIdx p.address).bind fun buffers =>
        (writeTable m.busAddresses bufIdx p.bus).bind fun busAddresses =>
          (incrementInt bufIdx).bind fun next =>
            allocBuffers env k next { m with buffers := buffers, busAddresses := busAddresses, ledger := l }

/-- The loop of `err_alloc_buffer`, from `cleanup_idx + 1` downwards. -/
def freeBuffers (env : MessagingAllocator) (buffers busAddresses : Option AddressTable) :
    Nat → Ledger MessagingResource → Option (Ledger MessagingResource)
  | 0, l => some l
  | cleanupIdx + 1, l =>
    (readTable buffers cleanupIdx).bind fun address =>
      (readTable busAddresses cleanupIdx).bind fun bus =>
        freeBuffers env buffers busAddresses cleanupIdx (l.release (.page env.pageSize address bus))

def errAllocBuffersArray (m : MessagingDmaMem) : Int × MessagingDmaMem :=
  (STATUS_ERR_INSUFFICIENT_MEM, { m with declaration := none })

def errAllocDmaAddressesArray (m : MessagingDmaMem) : Int × MessagingDmaMem :=
  errAllocBuffersArray { m with buffers := none, ledger := kfreeTable m.buffers m.ledger }

/-- `bufferDmaAddresses` is the local pointer. -/
def errAllocBuffer (env : MessagingAllocator) (bufferDmaAddresses : Option AddressTable) (cleanup : Nat)
    (m : MessagingDmaMem) : Option (Int × MessagingDmaMem) :=
  (freeBuffers env m.buffers bufferDmaAddresses cleanup m.ledger).map fun l =>
    errAllocDmaAddressesArray { m with busAddresses := none, ledger := kfreeTable m.busAddresses l }

/-- `declaration` is the one of `men_get_messaging_dma_declaration`. -/
def me6ImpulseInitMessagingDmaMem (env : MessagingAllocator) (declaration : Option MessagingDmaDeclaration)
    (m : MessagingDmaMem) : Option (Int × MessagingDmaMem) :=
  let bufferDmaAddresses : Option AddressTable := none
  let m := { m with declaration := declaration }
  match declaration with
  | none => some (STATUS_OK, m)
  | some d =>
    match env.buffersArray d.numBuffers with
    | none => some (errAllocBuffersArray { m with buffers := none })
    | some buffers =>
      let m := { m with
        buffers := some { address := buffers, length := d.numBuffers.toNat }
        ledger := m.ledger.take (.table buffers) }
      match env.busAddressesArray d.numBuffers with
      | none => some (errAllocDmaAddressesArray { m with busAddresses := none })
      | some busAddresses =>
        let m := { m with
          busAddresses := some { address := busAddresses, length := d.numBuffers.toNat }
          ledger := m.ledger.take (.table busAddresses) }
        match allocBuffers env d.numBuffers.toNat 0 m with
        | none => none
        | some (none, m) => some (STATUS_OK, m)
        | some (some bufIdx, m) => errAllocBuffer env bufferDmaAddresses bufIdx m

/-- The loop of `me6_impulse_exit`; `k` buffers are left. -/
def exitBuffers (env : MessagingAllocator) (buffers busAddresses : Option AddressTable) :
    Nat → Nat → Ledger MessagingResource → Option (Ledger MessagingResource)
  | 0, _, l => some l
  | k + 1, bufIdx, l =>
    (readTable buffers bufIdx).bind fun address =>
      (readTable busAddresses bufIdx).bind fun bus =>
        (incrementInt bufIdx).bind fun next =>
          exitBuffers env buffers busAddresses k next (l.release (.page env.pageSize address bus))

/-- `me6_impulse_exit`, which finds the bus addresses where they were written. -/
def me6ImpulseExit (env : MessagingAllocator) (m : MessagingDmaMem) : Option (Int × MessagingDmaMem) :=
  match m.declaration with
  | none => some (STATUS_OK, m)
  | some d =>
    (exitBuffers env m.buffers m.busAddresses d.numBuffers.toNat 0 m.ledger).map fun l =>
      (STATUS_OK, { ledger := kfreeTable m.busAddresses (kfreeTable m.buffers l) })

/-! ### The loop over the buffers -/

variable {env : MessagingAllocator} {m : MessagingDmaMem} {held : List MessagingResource} {n i k : Nat}
  {buffers busAddresses : BitVec 64}

def DmaPage.resource (p : DmaPage) : MessagingResource := .page PCI_PAGE_SIZE p.address p.bus

/-- The `k` pages from `i` on. -/
def messagingPages (env : MessagingAllocator) (i k : Nat) : List MessagingResource :=
  (List.range' i k).filterMap fun j => (env.dmaAllocCoherent j).map DmaPage.resource

/-- A table of `n` entries of which the first `i` are written. -/
structure TableFilled (entry : Nat → Option (BitVec 64)) (address : BitVec 64) (n i : Nat)
    (t : AddressTable) : Prop where
  address : t.address = address
  length : t.length = n
  entries : ∀ j < i, t.entries j = entry j

/-- What is in the memory when the first `i` of `n` pages were taken. -/
structure PagesFilled (env : MessagingAllocator) (held : List MessagingResource)
    (buffers busAddresses : BitVec 64) (n i : Nat) (m : MessagingDmaMem) : Prop where
  buffers : ∃ t, m.buffers = some t ∧
    TableFilled (fun j => (env.dmaAllocCoherent j).map (·.address)) buffers n i t
  busAddresses : ∃ t, m.busAddresses = some t ∧
    TableFilled (fun j => (env.dmaAllocCoherent j).map (·.bus)) busAddresses n i t
  present : ∀ j < i, (env.dmaAllocCoherent j).isSome
  holds : m.ledger.Holds (messagingPages env 0 i ++ held)

theorem messagingPages_cons {p : DmaPage} (hp : env.dmaAllocCoherent i = some p) :
    messagingPages env i (k + 1) = p.resource :: messagingPages env (i + 1) k := by
  rw [messagingPages, List.range'_succ, List.filterMap_cons, hp]
  rfl

theorem messagingPages_concat {p : DmaPage} (hp : env.dmaAllocCoherent (i + k) = some p) :
    messagingPages env i (k + 1) = messagingPages env i k ++ [p.resource] := by
  rw [messagingPages, List.range'_1_concat, List.filterMap_append, List.filterMap_cons, hp]
  rfl

theorem incrementInt_eq (h : i + 1 < 2 ^ 31) : incrementInt i = some (i + 1) := if_pos h

theorem writeTable_filled {entry : Nat → Option (BitVec 64)} {address a : BitVec 64} {t : AddressTable}
    (ht : TableFilled entry address n i t) (hi : i < n) (ha : entry i = some a) :
    ∃ t', writeTable (some t) i a = some t' ∧ TableFilled entry address n (i + 1) t' := by
  refine ⟨{ t with entries := Function.update t.entries i (some a) }, ?_, ht.address, ht.length, ?_⟩
  · rw [writeTable, Option.bind_some, if_pos (by rw [ht.length]; exact hi)]
  · intro j hj
    change Function.update t.entries i (some a) j = entry j
    by_cases h : j = i
    · rw [h, Function.update_self, ha]
    · rw [Function.update_of_ne h]
      exact ht.entries j (by omega)

theorem readTable_filled {entry : Nat → Option (BitVec 64)} {address : BitVec 64} {t : AddressTable}
    (ht : TableFilled entry address n i t) (hin : i ≤ n) {j : Nat} (hj : j < i) :
    readTable (some t) j = entry j := by
  rw [readTable, Option.bind_some, if_pos (by rw [ht.length]; omega), ht.entries j hj]

theorem PagesFilled.ne_none (h : PagesFilled env held buffers busAddresses n i m) {j : Nat} (hj : j < i) :
    env.dmaAllocCoherent j ≠ none := by
  intro hnone
  have hpresent := h.present j hj
  rw [hnone] at hpresent
  cases hpresent

/-- One page more. -/
theorem allocBuffers_succ (hfilled : PagesFilled env held buffers busAddresses n i m) (hi : i < n)
    (hn : n < 2 ^ 31) {p : DmaPage} (hp : env.dmaAllocCoherent i = some p) :
    ∃ m', allocBuffers env (k + 1) i m = allocBuffers env k (i + 1) m' ∧
      m'.declaration = m.declaration ∧ PagesFilled env held buffers busAddresses n (i + 1) m' := by
  obtain ⟨t, ht, htable⟩ := hfilled.buffers
  obtain ⟨b, hb, hbus⟩ := hfilled.busAddresses
  obtain ⟨t', hwrite, htable'⟩ := writeTable_filled htable hi (show _ = some p.address by rw [hp]; rfl)
  obtain ⟨b', hwriteBus, hbus'⟩ := writeTable_filled hbus hi (show _ = some p.bus by rw [hp]; rfl)
  refine ⟨⟨m.declaration, some t', some b', m.ledger.take (.page PCI_PAGE_SIZE p.address p.bus)⟩,
    ?_, rfl, ⟨t', rfl, htable'⟩, ⟨b', rfl, hbus'⟩, ?_, ?_⟩
  · rw [allocBuffers]
    simp only [hp, ht, hb, hwrite, hwriteBus, Option.bind_some]
    rw [incrementInt_eq (by omega), Option.bind_some]
  · intro j hj
    by_cases h : j = i
    · rw [h, hp]
      rfl
    · exact hfilled.present j (by omega)
  · rw [messagingPages_concat (Nat.zero_add i ▸ hp), List.append_assoc]
    exact (hfilled.holds.take p.resource).perm List.perm_middle.symm

/-- The loop takes all pages that are left, or stops at the first one that it does not get. -/
theorem allocBuffers_spec (hn : n < 2 ^ 31) (hk : i + k = n)
    (hfilled : PagesFilled env held buffers busAddresses n i m) :
    ∃ m', m'.declaration = m.declaration ∧
      ((allocBuffers env k i m = some (none, m') ∧ PagesFilled env held buffers busAddresses n n m') ∨
        ∃ j, j < n ∧ env.dmaAllocCoherent j = none ∧ allocBuffers env k i m = some (some j, m') ∧
          PagesFilled env held buffers busAddresses n j m') := by
  induction k generalizing i m with
  | zero =>
    subst hk
    exact ⟨m, rfl, .inl ⟨rfl, hfilled⟩⟩
  | succ k ih =>
    rcases hp : env.dmaAllocCoherent i with _ | p
    · refine ⟨m, rfl, .inr ⟨i, by omega, hp, ?_, hfilled⟩⟩
      rw [allocBuffers, hp]
    · obtain ⟨m', hstep, hdecl, hfilled'⟩ :=
        @allocBuffers_succ env m held n i k _ _ hfilled (by omega) hn p hp
      obtain ⟨m'', hdecl', hrest⟩ := ih (by omega) hfilled'
      rw [hstep]
      exact ⟨m'', hdecl'.trans hdecl, hrest⟩

/-! ### Giving the pages back -/

/-- The tables that were filled say of every page what it is. -/
theorem PagesFilled.read (h : PagesFilled env held buffers busAddresses n i m)
    (hin : i ≤ n) {j : Nat} (hj : j < i) :
    ∃ p, env.dmaAllocCoherent j = some p ∧ readTable m.buffers j = some p.address ∧
      readTable m.busAddresses j = some p.bus := by
  obtain ⟨p, hp⟩ := Option.isSome_iff_exists.mp (h.present j hj)
  obtain ⟨t, ht, htable⟩ := h.buffers
  obtain ⟨b, hb, hbus⟩ := h.busAddresses
  refine ⟨p, hp, ?_, ?_⟩
  · rw [ht, readTable_filled htable hin hj, hp]
    rfl
  · rw [hb, readTable_filled hbus hin hj, hp]
    rfl

/-- The local pointer is NULL. -/
theorem freeBuffers_null (t : Option AddressTable) (j : Nat) (l : Ledger MessagingResource) :
    freeBuffers env t none (j + 1) l = none := by
  rw [freeBuffers]
  rcases readTable t j with _ | a
  · rfl
  · rfl

theorem exitBuffers_filled (h : PagesFilled env held buffers busAddresses n n m)
    (hn : n < 2 ^ 31) (hsize : env.pageSize = PCI_PAGE_SIZE) {j : Nat} (hjk : j + k = n)
    {l : Ledger MessagingResource} (hl : l.Holds (messagingPages env j k ++ held)) :
    ∃ l', exitBuffers env m.buffers m.busAddresses k j l = some l' ∧ l'.Holds held := by
  induction k generalizing j l with
  | zero => exact ⟨l, rfl, hl⟩
  | succ k ih =>
    obtain ⟨p, hp, haddress, hbus⟩ := h.read (Nat.le_refl n) (show j < n by omega)
    rw [messagingPages_cons hp] at hl
    obtain ⟨l', hfree, hl'⟩ := ih (by omega) hl.release
    refine ⟨l', ?_, hl'⟩
    rw [exitBuffers, haddress, Option.bind_some, hbus, Option.bind_some, incrementInt_eq (by omega),
      Option.bind_some, hsize]
    exact hfree

/-! ### All or nothing -/

def AllocationFails (env : MessagingAllocator) (numBuffers : BitVec 32) : Prop :=
  env.buffersArray numBuffers = none ∨ env.busAddressesArray numBuffers = none ∨
    ∃ k < numBuffers.toNat, env.dmaAllocCoherent k = none

/-- The memory of `me6` is zero before. -/
def initialised (env : MessagingAllocator) (declaration : Option MessagingDmaDeclaration) :
    Option (Int × MessagingDmaMem) := me6ImpulseInitMessagingDmaMem env declaration {}

structure SetUp (env : MessagingAllocator) (declaration : Option MessagingDmaDeclaration) (ret : Int)
    (m : MessagingDmaMem) : Prop where
  unsupported : declaration = none → ret = STATUS_OK ∧ m.declaration = none ∧ m.ledger.Holds []
  complete : ∀ d, declaration = some d → ¬ AllocationFails env d.numBuffers →
    ret = STATUS_OK ∧ m.declaration = declaration ∧
      ∃ buffers busAddresses, env.buffersArray d.numBuffers = some buffers ∧
        env.busAddressesArray d.numBuffers = some busAddresses ∧
          PagesFilled env [.table busAddresses, .table buffers] buffers busAddresses d.numBuffers.toNat
            d.numBuffers.toNat m
  failed : ∀ d, declaration = some d → AllocationFails env d.numBuffers →
    menIsError ret = true ∧ m.declaration = none ∧ m.buffers = none ∧ m.busAddresses = none ∧
      m.ledger.Holds []

/-- It returns, and the memory is there or everything was given back. -/
def MessagingAllOrNothing (env : MessagingAllocator) (declaration : Option MessagingDmaDeclaration) : Prop :=
  ∃ ret m, initialised env declaration = some (ret, m) ∧ SetUp env declaration ret m

/-- When both tables are there and one of the pages is not, it is the first one. -/
def NoPageBeforeFailure (env : MessagingAllocator) (declaration : Option MessagingDmaDeclaration) : Prop :=
  ∀ d, declaration = some d → (env.buffersArray d.numBuffers).isSome →
    (env.busAddressesArray d.numBuffers).isSome → (∃ k < d.numBuffers.toNat, env.dmaAllocCoherent k = none) →
      env.dmaAllocCoherent 0 = none

variable {d : MessagingDmaDeclaration}

theorem SetUp.of_failed {ret : Int} (hfails : AllocationFails env d.numBuffers) (hret : menIsError ret = true)
    (hdecl : m.declaration = none) (hbuffers : m.buffers = none) (hbus : m.busAddresses = none)
    (hl : m.ledger.Holds []) : SetUp env (some d) ret m where
  unsupported := fun h => nomatch h
  complete := fun _ h hno => absurd (Option.some.inj h ▸ hfails) hno
  failed := fun _ _ _ => ⟨hret, hdecl, hbuffers, hbus, hl⟩

/-- With both tables it is decided by the loop. -/
theorem initialised_cases (hbuffers : env.buffersArray d.numBuffers = some buffers)
    (hbus : env.busAddressesArray d.numBuffers = some busAddresses) :
    ∃ m, m.declaration = some d ∧
      ((initialised env (some d) = some (STATUS_OK, m) ∧
          PagesFilled env [.table busAddresses, .table buffers] buffers busAddresses d.numBuffers.toNat
            d.numBuffers.toNat m) ∨
        ∃ j, j < d.numBuffers.toNat ∧ env.dmaAllocCoherent j = none ∧
          initialised env (some d) = errAllocBuffer env none j m ∧
            PagesFilled env [.table busAddresses, .table buffers] buffers busAddresses
              d.numBuffers.toNat j m) := by
  have hlt := env.array_lt d.numBuffers (by rw [hbuffers]; rfl)
  let start : MessagingDmaMem :=
    { declaration := some d
      buffers := some { address := buffers, length := d.numBuffers.toNat }
      busAddresses := some { address := busAddresses, length := d.numBuffers.toNat }
      ledger := (({} : Ledger MessagingResource).take (.table buffers)).take (.table busAddresses) }
  have hstart : PagesFilled env [.table busAddresses, .table buffers] buffers busAddresses
      d.numBuffers.toNat 0 start :=
    ⟨⟨_, rfl, rfl, rfl, fun j hj => absurd hj (Nat.not_lt_zero j)⟩,
      ⟨_, rfl, rfl, rfl, fun j hj => absurd hj (Nat.not_lt_zero j)⟩,
      fun j hj => absurd hj (Nat.not_lt_zero j), (Ledger.holds_empty.take _).take _⟩
  have hrun : initialised env (some d) =
      match allocBuffers env d.numBuffers.toNat 0 start with
      | none => none
      | some (none, m) => some (STATUS_OK, m)
      | some (some bufIdx, m) => errAllocBuffer env none bufIdx m := by
    rw [initialised, me6ImpulseInitMessagingDmaMem]
    simp only [hbuffers, hbus]
    rfl
  obtain ⟨m, hdecl, hloop⟩ := allocBuffers_spec hlt (Nat.zero_add _) hstart
  refine ⟨m, hdecl, ?_⟩
  rcases hloop with ⟨hall, hfilled⟩ | ⟨j, hj, hnone, hstop, hfilled⟩
  · rw [hall] at hrun
    exact .inl ⟨hrun, hfilled⟩
  · rw [hstop] at hrun
    exact .inr ⟨j, hj, hnone, hrun, hfilled⟩

/-- With every allocation there, the loop has filled both tables. -/
theorem initialised_complete (hok : ¬ AllocationFails env d.numBuffers) :
    ∃ m, m.declaration = some d ∧ initialised env (some d) = some (STATUS_OK, m) ∧
      ∃ buffers busAddresses, env.buffersArray d.numBuffers = some buffers ∧
        env.busAddressesArray d.numBuffers = some busAddresses ∧
          PagesFilled env [.table busAddresses, .table buffers] buffers busAddresses d.numBuffers.toNat
            d.numBuffers.toNat m := by
  simp only [AllocationFails, not_or] at hok
  obtain ⟨hbuffers, hbus, hpages⟩ := hok
  obtain ⟨buffers, hbuffers⟩ := Option.ne_none_iff_exists'.mp hbuffers
  obtain ⟨busAddresses, hbus⟩ := Option.ne_none_iff_exists'.mp hbus
  obtain ⟨m, hdecl, hloop⟩ := initialised_cases hbuffers hbus
  rcases hloop with ⟨hrun, hfilled⟩ | ⟨j, hj, hnone, _, _⟩
  · exact ⟨m, hdecl, hrun, buffers, busAddresses, hbuffers, hbus, hfilled⟩
  · exact absurd ⟨j, hj, hnone⟩ hpages

/-- Without the first page there is nothing to unwind but the tables. -/
theorem initialised_failed (hfails : AllocationFails env d.numBuffers)
    (hfirst : NoPageBeforeFailure env (some d)) :
    ∃ m, initialised env (some d) = some (STATUS_ERR_INSUFFICIENT_MEM, m) ∧
      SetUp env (some d) STATUS_ERR_INSUFFICIENT_MEM m := by
  have herror : menIsError STATUS_ERR_INSUFFICIENT_MEM = true := by decide
  rcases hbuffers : env.buffersArray d.numBuffers with _ | buffers
  · refine ⟨{}, ?_, .of_failed hfails herror rfl rfl rfl Ledger.holds_empty⟩
    rw [initialised, me6ImpulseInitMessagingDmaMem]
    simp only [hbuffers]
    rfl
  rcases hbus : env.busAddressesArray d.numBuffers with _ | busAddresses
  · refine ⟨{ ledger := (({} : Ledger MessagingResource).take (.table buffers)).release (.table buffers) },
      ?_, .of_failed hfails herror rfl rfl rfl (Ledger.holds_empty.take _).release⟩
    rw [initialised, me6ImpulseInitMessagingDmaMem]
    simp only [hbuffers, hbus]
    rfl
  obtain ⟨m, -, hloop⟩ := initialised_cases hbuffers hbus
  rcases hloop with ⟨hrun, hfilled⟩ | ⟨j, hj, hnone, hrun, hfilled⟩
  · rcases hfails with h | h | ⟨k, hk, hk'⟩
    · rw [hbuffers] at h
      cases h
    · rw [hbus] at h
      cases h
    · exact absurd hk' (hfilled.ne_none hk)
  · have hzero : j = 0 := by
      by_contra hpos
      refine absurd ?_ (hfilled.ne_none (Nat.pos_of_ne_zero hpos))
      exact hfirst d rfl (by rw [hbuffers]; rfl) (by rw [hbus]; rfl) ⟨j, hj, hnone⟩
    subst hzero
    obtain ⟨t, ht, htable⟩ := hfilled.buffers
    obtain ⟨b, hb, hbusTable⟩ := hfilled.busAddresses
    have hempty : ((m.ledger.release (.table busAddresses)).release (.table buffers)).Holds [] :=
      hfilled.holds.release.release
    rw [errAllocBuffer, freeBuffers, ht, hb, Option.map_some] at hrun
    refine ⟨_, hrun, .of_failed hfails herror rfl rfl rfl ?_⟩
    simp only [kfreeTable, htable.address, hbusTable.address]
    exact hempty

/-- The set-up is all or nothing exactly when the unwinding has no page to give back. -/
theorem me6ImpulseInitMessagingDmaMem_allOrNothing_iff (env : MessagingAllocator)
    (declaration : Option MessagingDmaDeclaration) :
    MessagingAllOrNothing env declaration ↔ NoPageBeforeFailure env declaration := by
  constructor
  · rintro ⟨ret, m, hreturns, -⟩ d hd hbuffers hbus ⟨k, hk, hnone⟩
    subst hd
    obtain ⟨buffers, hbuffers⟩ := Option.isSome_iff_exists.mp hbuffers
    obtain ⟨busAddresses, hbus⟩ := Option.isSome_iff_exists.mp hbus
    obtain ⟨m', -, hloop⟩ := initialised_cases hbuffers hbus
    rcases hloop with ⟨-, hfilled⟩ | ⟨j, -, hj, hrun, -⟩
    · exact absurd hnone (hfilled.ne_none hk)
    · rcases j with _ | j
      · exact hj
      · rw [errAllocBuffer, freeBuffers_null, hreturns] at hrun
        cases hrun
  · intro hfirst
    rcases declaration with _ | d
    · refine ⟨STATUS_OK, {}, rfl, ?_, ?_, ?_⟩
      · exact fun _ => ⟨rfl, rfl, Ledger.holds_empty⟩
      · exact fun d h => nomatch h
      · exact fun d h => nomatch h
    · by_cases hfails : AllocationFails env d.numBuffers
      · obtain ⟨m, hrun, hsetUp⟩ := initialised_failed hfails hfirst
        exact ⟨_, m, hrun, hsetUp⟩
      · obtain ⟨m, hdecl, hrun, hfilled⟩ := initialised_complete hfails
        refine ⟨STATUS_OK, m, hrun, ?_, ?_, ?_⟩
        · exact fun h => nomatch h
        · rintro d' ⟨⟩ -
          exact ⟨rfl, hdecl, hfilled⟩
        · rintro d' ⟨⟩ h
          exact absurd h hfails

/-- There is memory for the tables and for one page. -/
def onePage : MessagingAllocator where
  buffersArray := fun n => if n.toNat < 2 ^ 31 then some 0x1000 else none
  busAddressesArray := fun _ => some 0x2000
  dmaAllocCoherent := fun k => if k = 0 then some ⟨0x3000, 0x4000⟩ else none
  pageSize := PCI_PAGE_SIZE
  array_lt := by
    intro n h
    by_contra hn
    rw [if_neg hn] at h
    cases h

/-- The bus address of the page that was taken is looked for at NULL. -/
theorem me6ImpulseInitMessagingDmaMem_faults :
    initialised onePage (some me6ImpulseMessagingDmaDeclaration) = none ∧
      ¬ MessagingAllOrNothing onePage (some me6ImpulseMessagingDmaDeclaration) := by
  have hfault : initialised onePage (some me6ImpulseMessagingDmaDeclaration) = none := rfl
  refine ⟨hfault, ?_⟩
  rintro ⟨ret, m, hreturns, -⟩
  rw [hfault] at hreturns
  cases hreturns

/-- What a complete set-up took, `me6_impulse_exit` gives back. -/
theorem me6ImpulseExit_initialised (hok : ¬ AllocationFails env d.numBuffers)
    (hsize : env.pageSize = PCI_PAGE_SIZE) :
    ∃ m m', initialised env (some d) = some (STATUS_OK, m) ∧ me6ImpulseExit env m = some (STATUS_OK, m') ∧
      m'.ledger.Holds [] := by
  obtain ⟨m, hdecl, hrun, buffers, busAddresses, hbuffers, -, hfilled⟩ := initialised_complete hok
  have hlt := env.array_lt d.numBuffers (by rw [hbuffers]; rfl)
  obtain ⟨t, ht, htable⟩ := hfilled.buffers
  obtain ⟨b, hb, hbusTable⟩ := hfilled.busAddresses
  obtain ⟨l, hfree, hl⟩ := exitBuffers_filled hfilled hlt hsize (Nat.zero_add _) hfilled.holds
  refine ⟨m, { ledger := kfreeTable m.busAddresses (kfreeTable m.buffers l) }, hrun, ?_, ?_⟩
  · rw [me6ImpulseExit, hdecl]
    simp only
    rw [hfree]
    rfl
  · rw [ht, hb]
    simp only [kfreeTable, htable.address, hbusTable.address]
    exact (hl.perm (.swap _ _ _)).release.release

end MenableDriver
