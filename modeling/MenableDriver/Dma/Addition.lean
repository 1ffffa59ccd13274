import Mathlib.Algebra.Order.BigOperators.Group.List
import Mathlib.Algebra.Order.Group.Nat
import Mathlib.Data.List.GetD
import MenableDriver.Data.Ledger
import MenableDriver.Dma.Allocation

/-!
# More DMA channels

`men_add_dmas` asks the device how many channels every FPGA has now, and gives the board a
larger table when they are more than before. What an FPGA is to get is a difference of two
`unsigned int`; the size of the table is the sum of what the device reports.
-/

namespace MenableDriver

set_option autoImplicit false

open Transition

def MAX_ERRNO : Nat := 4095

/-- An error number that a function of the kernel returns. -/
abbrev ErrNumber : Type := {n : Nat // 0 < n ∧ n ≤ MAX_ERRNO}

/-- The number of `ENOMEM`. -/
def enomem : ErrNumber := ⟨12, by decide⟩

/-- A pointer to a channel, or a number that `ERR_PTR` made a pointer of. -/
inductive DmaPtr where
  | null
  | chan (c : ChanRef)
  | errPtr (error : Int)
deriving DecidableEq, Repr

/-- `IS_ERR`, with the number of `PTR_ERR`. -/
def DmaPtr.isErr : DmaPtr → Option Int
  | .errPtr error => if -(MAX_ERRNO : Int) ≤ error ∧ error < 0 then some error else none
  | _ => none

/-- How far `men_create_dmachan` gets: there is no memory, or it has the channel `c` and
`device_register` or `sysfs_create_link` fails, or none of them. -/
inductive Creation where
  | noMem
  | unregistered (c : ChanRef) (error : ErrNumber)
  | unlinked (c : ChanRef) (error : ErrNumber)
  | created (c : ChanRef)

/-- The board, and the channels that were allocated and freed. -/
structure ChannelTable where
  men : Men
  dmachannels : Option (List DmaPtr) := none
  channels : Ledger ChanRef := {}

/-- The new table `nc` while it is filled. -/
structure Addition where
  men : Men
  nc : List DmaPtr
  newindex : Nat
  channels : Ledger ChanRef

/-- `halt` is an access to memory that is not there. -/
inductive AddExit where
  | halt (h : Halt)
  | failed (ret : Int) (channels : Ledger ChanRef)

/-- A channel that was registered is freed by its `device_unregister`. -/
def menCreateDmachan (s : Addition) (fpga : Nat) : Creation → DmaPtr × Men × Ledger ChanRef
  | .noMem => (.errPtr enomem.1, s.men, s.channels)
  | .unregistered c error => (.errPtr (-error.1), s.men, (s.channels.take c).release c)
  | .unlinked c error => (.errPtr (-error.1), s.men, ((s.channels.take c).release c).release c)
  | .created c => (.chan c, s.men.setChan c { number := s.newindex % 256, fpga := fpga % 256 },
      s.channels.take c)

/-- `men_dma_remove` of each. -/
def menDmaRemoveAll (channels : Ledger ChanRef) : List DmaPtr → Res (Ledger ChanRef)
  | [] => .ok channels
  | .chan c :: ptrs => menDmaRemoveAll (channels.release c) ptrs
  | _ :: _ => .error .outOfBounds

/-- One new channel; `existing` channels are there already. -/
def addDma (create : Nat → Creation) (existing : Nat) (s : Addition) (fpga : Nat) :
    Except AddExit Addition :=
  let (ptr, men, channels) := menCreateDmachan s fpga (create s.newindex)
  if s.newindex < s.nc.length then
    match ptr.isErr with
    | some ret =>
      match menDmaRemoveAll channels ((s.nc.take s.newindex).drop existing) with
      | .error h => .error (.halt h)
      | .ok channels => .error (.failed ret channels)
    | none => .ok { men, channels, nc := s.nc.set s.newindex ptr, newindex := s.newindex + 1 }
  else .error (.halt .outOfBounds)

def addDmas (create : Nat → Creation) (existing fpga : Nat) : Nat → Addition → Except AddExit Addition
  | 0, s => .ok s
  | n + 1, s => do addDmas create existing fpga n (← addDma create existing s fpga)

/-- The FPGAs from `fpga` on, each with the channels it has and those that are reported. -/
def addFpgas (create : Nat → Creation) (existing : Nat) :
    Nat → List (Nat × Nat) → Addition → Except AddExit Addition
  | _, [], s => .ok s
  | fpga, (had, reported) :: counts, s =>
    if had = reported then addFpgas create existing (fpga + 1) counts s
    else if 0 < Counter.sub reported had then do
      addFpgas create existing (fpga + 1) counts
        (← addDmas create existing fpga (Counter.sub reported had) s)
    else addFpgas create existing (fpga + 1) counts s

namespace ChannelTable

def existing (b : ChannelTable) : Nat := b.men.dmacnt.sum

/-- The active FPGAs with the channels they have and those that are reported. -/
def counts (b : ChannelTable) (queryDma : Nat → UInt32) : List (Nat × Nat) :=
  (List.range b.men.activeFpgas).map fun i => (b.men.dmacnt.getD i 0, (queryDma i).toNat)

def reported (b : ChannelTable) (queryDma : Nat → UInt32) : Nat := ((b.counts queryDma).map Prod.snd).sum

/-- The sum as the `unsigned int` it is made in. -/
def requested (b : ChannelTable) (queryDma : Nat → UInt32) : Nat := b.reported queryDma % Counter.wrap

/-- The counts are bytes. -/
def newCounts (b : ChannelTable) (queryDma : Nat → UInt32) : List Nat :=
  (b.men.dmacnt.zipIdx).map fun (had, i) => if i < b.men.activeFpgas then (queryDma i).toNat % 256 else had

def slots (b : ChannelTable) : List DmaPtr := b.dmachannels.getD []

end ChannelTable

/-- `memory` tells whether there is memory for the table. -/
def menAddDmas (b : ChannelTable) (queryDma : Nat → UInt32) (memory : Bool) (create : Nat → Creation) :
    Res (Int × ChannelTable) :=
  if b.requested queryDma ≤ b.existing then .ok (0, b)
  else if memory = false then .ok (-enomem.1, b)
  else
    match addFpgas create b.existing 0 (b.counts queryDma)
      { men := b.men, nc := List.replicate (b.requested queryDma) .null, newindex := b.existing,
        channels := b.channels } with
    | .error (.halt h) => .error h
    | .error (.failed ret channels) => .ok (ret, { b with channels })
    | .ok s =>
      if b.existing ≤ b.slots.length then
        .ok (0,
          { men := { s.men with dmacnt := b.newCounts queryDma }
            dmachannels := some (b.slots.take b.existing ++ s.nc.drop b.existing)
            channels := s.channels })
      else .error .outOfBounds

/-- The board has these channels and no others are allocated. -/
structure Populated (b : ChannelTable) (chans : List ChanRef) : Prop where
  slots : b.slots = chans.map .chan
  live : b.channels.Holds chans
  counts : b.men.dmacnt.sum = chans.length
  fpgas : b.men.dmacnt.length = MAX_FPGAS
  active : b.men.activeFpgas ≤ MAX_FPGAS
  bytes : ∀ n ∈ b.men.dmacnt, n < 256

/-- The table holds `total` channels, the old ones at their indices, and none that was freed. -/
structure Added (chans : List ChanRef) (total : Nat) (b' : ChannelTable) : Prop where
  table : ∃ new, b'.slots = (chans ++ new).map .chan ∧ b'.channels.Holds (chans ++ new)
  length : b'.slots.length = total
  fits : total ≤ MEN_MAX_DMA
  counts : b'.men.dmacnt.sum = b'.slots.length

structure Restored (b : ChannelTable) (chans : List ChanRef) (b' : ChannelTable) : Prop where
  counts : b'.men.dmacnt = b.men.dmacnt
  table : b'.dmachannels = b.dmachannels
  removed : b'.channels.Holds chans

/-- All channels that the device reports, or none that was not there before. -/
def AddLaw (b : ChannelTable) (chans : List ChanRef) (queryDma : Nat → UInt32) (memory : Bool)
    (create : Nat → Creation) : Prop :=
  ∃ ret b', menAddDmas b queryDma memory create = .ok (ret, b') ∧
    (ret = 0 ∧ Added chans (b.reported queryDma) b' ∨ ret < 0 ∧ Restored b chans b')

/-! ### What is to be created -/

variable {create : Nat → Creation} {existing total fpga : Nat} {counts : List (Nat × Nat)}
  {s s' : Addition} {chans new : List ChanRef}

/-- The FPGAs of the channels to be created, one after the other. -/
def toCreate : Nat → List (Nat × Nat) → List Nat
  | _, [] => []
  | fpga, (had, reported) :: counts =>
    List.replicate (Counter.sub reported had) fpga ++ toCreate (fpga + 1) counts

theorem addDmas_eq_run (n : Nat) (s : Addition) :
    addDmas create existing fpga n s = run (addDma create existing) s (List.replicate n fpga) := by
  induction n generalizing s with
  | zero => rfl
  | succ n ih =>
    rw [addDmas, List.replicate_succ, run]
    cases addDma create existing s fpga with
    | ok t => exact ih t
    | error e => rfl

/-- The loop over the FPGAs creates the channels one by one. -/
theorem addFpgas_eq_run (create : Nat → Creation) (existing : Nat)
    (hsmall : ∀ p ∈ counts, p.1 < Counter.wrap) (fpga : Nat) (s : Addition) :
    addFpgas create existing fpga counts s =
      run (addDma create existing) s (toCreate fpga counts) := by
  induction counts generalizing fpga s with
  | nil => rfl
  | cons p counts ih =>
    obtain ⟨had, reported⟩ := p
    have hhad : had < Counter.wrap := hsmall _ List.mem_cons_self
    have hrest : ∀ p ∈ counts, p.1 < Counter.wrap := fun p hp => hsmall p (List.mem_cons_of_mem _ hp)
    rw [addFpgas, toCreate, run_append, ← addDmas_eq_run]
    by_cases heq : had = reported
    · have hzero : Counter.sub reported had = 0 := by
        unfold Counter.sub Counter.wrap at *
        omega
      rw [if_pos heq, hzero, ih hrest]
      rfl
    · rw [if_neg heq]
      split_ifs with hpos
      · exact bind_congr fun t => ih hrest _ t
      · rw [Nat.eq_zero_of_not_pos hpos, ih hrest]
        rfl

/-- An FPGA that reports fewer channels than it has is to get almost all numbers there are. -/
theorem toCreate_length (hsmall : ∀ p ∈ counts, p.1 < Counter.wrap ∧ p.2 < Counter.wrap) (fpga : Nat) :
    ((∀ p ∈ counts, p.1 ≤ p.2) ∧
      (toCreate fpga counts).length + (counts.map Prod.fst).sum = (counts.map Prod.snd).sum) ∨
    ((¬ ∀ p ∈ counts, p.1 ≤ p.2) ∧ Counter.wrap ≤ (toCreate fpga counts).length + (counts.map Prod.fst).sum) := by
  induction counts generalizing fpga with
  | nil => exact .inl ⟨by simp, rfl⟩
  | cons p counts ih =>
    obtain ⟨had, reported⟩ := p
    obtain ⟨hhad, hreported⟩ := hsmall _ List.mem_cons_self
    have hrest := ih (fun p hp => hsmall p (List.mem_cons_of_mem _ hp)) (fpga + 1)
    simp only [toCreate, List.length_append, List.length_replicate, List.map_cons, List.sum_cons,
      List.forall_mem_cons]
    by_cases hle : had ≤ reported
    · rw [Counter.sub_eq hle hreported]
      rcases hrest with ⟨hall, hsum⟩ | ⟨hnot, hsum⟩
      · exact .inl ⟨⟨hle, hall⟩, by omega⟩
      · exact .inr ⟨fun h => hnot h.2, by omega⟩
    · have hsub : Counter.sub reported had = reported + (Counter.wrap - had) := by
        unfold Counter.sub Counter.wrap at *
        omega
      exact .inr ⟨fun h => hle h.1, by omega⟩

/-! ### One new channel -/

/-- The table while all new channels so far are good. -/
structure Filling (chans : List ChanRef) (existing total : Nat) (new : List ChanRef) (s : Addition) :
    Prop where
  newindex : s.newindex = existing + new.length
  size : s.nc.length = total
  slots : (s.nc.take s.newindex).drop existing = new.map .chan
  live : s.channels.Holds (chans ++ new)

/-- Some slot that was filled has no channel. -/
structure Spoiled (existing total : Nat) (s : Addition) : Prop where
  size : s.nc.length = total
  fits : s.newindex ≤ total
  slot : ∃ ptr ∈ (s.nc.take s.newindex).drop existing, ∀ c, ptr ≠ .chan c

theorem menDmaRemoveAll_chans (channels : Ledger ChanRef) (new : List ChanRef) :
    menDmaRemoveAll channels (new.map .chan) = .ok (channels.releaseAll new.reverse) := by
  induction new generalizing channels with
  | nil => rfl
  | cons c new ih =>
    rw [List.map_cons, menDmaRemoveAll, ih, Ledger.releaseAll, Ledger.releaseAll, Ledger.release,
      List.reverse_cons, List.append_assoc]
    rfl

theorem menDmaRemoveAll_spoiled {ptrs : List DmaPtr} (h : ∃ ptr ∈ ptrs, ∀ c, ptr ≠ .chan c)
    (channels : Ledger ChanRef) : ∃ halt, menDmaRemoveAll channels ptrs = .error halt := by
  induction ptrs generalizing channels with
  | nil =>
    obtain ⟨ptr, hptr, _⟩ := h
    exact absurd hptr List.not_mem_nil
  | cons ptr ptrs ih =>
    cases ptr with
    | null => exact ⟨_, rfl⟩
    | errPtr => exact ⟨_, rfl⟩
    | chan c =>
      obtain ⟨ptr, hptr, hnot⟩ := h
      rcases List.mem_cons.mp hptr with rfl | hrest
      · exact absurd rfl (hnot c)
      · exact ih ⟨ptr, hrest, hnot⟩ _

theorem isErr_errPtr (error : ErrNumber) : (DmaPtr.errPtr (-error.1)).isErr = some (-(error.1 : Int)) := by
  obtain ⟨n, hpos, hmax⟩ := error
  simp only [DmaPtr.isErr]
  exact if_pos ⟨by omega, by omega⟩

/-- The slots that are filled, with one more. -/
theorem take_set_drop {nc : List DmaPtr} {i : Nat} (hi : i < nc.length) (hle : existing ≤ i) (ptr : DmaPtr) :
    ((nc.set i ptr).take (i + 1)).drop existing = (nc.take i).drop existing ++ [ptr] := by
  have htake : (nc.set i ptr).take (i + 1) = nc.take i ++ [ptr] := by
    rw [List.take_add_one, List.take_set_of_le (Nat.le_refl i), List.getElem?_set_self (by simpa using hi)]
    rfl
  rw [htake, List.drop_append_of_le_length]
  rw [List.length_take]
  omega

theorem addDma_created (h : Filling chans existing total new s) (fpga : Nat) {c : ChanRef}
    (hc : create s.newindex = .created c) (hlt : s.newindex < total) :
    ∃ s', addDma create existing s fpga = .ok s' ∧ Filling chans existing total (new ++ [c]) s' := by
  have hroom : s.newindex < s.nc.length := h.size.symm ▸ hlt
  have hindex := h.newindex
  refine ⟨_, by rw [addDma, hc]; simp only [menCreateDmachan, DmaPtr.isErr]; rw [if_pos hroom], ?_⟩
  constructor
  · simp only [List.length_append, List.length_singleton]
    omega
  · simpa using h.size
  · rw [take_set_drop hroom (by omega), h.slots, List.map_append]
    rfl
  · apply (h.live.take c).perm
    rw [← List.append_assoc]
    exact (List.perm_append_singleton c _).symm

theorem addDma_unregistered (h : Filling chans existing total new s) (fpga : Nat) {c : ChanRef}
    {error : ErrNumber}
    (hc : create s.newindex = .unregistered c error) (hlt : s.newindex < total) :
    ∃ channels, addDma create existing s fpga = .error (.failed (-error.1) channels) ∧
      channels.Holds chans := by
  have hroom : s.newindex < s.nc.length := h.size.symm ▸ hlt
  refine ⟨((s.channels.take c).release c).releaseAll new.reverse, ?_, ?_⟩
  · rw [addDma, hc]
    simp only [menCreateDmachan, isErr_errPtr, h.slots, menDmaRemoveAll_chans]
    rw [if_pos hroom]
  · rw [Ledger.holds_releaseAll]
    apply (h.live.take c).release.perm
    exact List.perm_append_comm.trans ((List.reverse_perm new).symm.append_right chans)

theorem addDma_unlinked (h : Filling chans existing total new s) (fpga : Nat) {c : ChanRef}
    {error : ErrNumber}
    (hc : create s.newindex = .unlinked c error) (hlt : s.newindex < total) :
    ∃ channels, addDma create existing s fpga = .error (.failed (-error.1) channels) ∧
      ¬ channels.Holds chans := by
  have hroom : s.newindex < s.nc.length := h.size.symm ▸ hlt
  refine ⟨(((s.channels.take c).release c).release c).releaseAll new.reverse, ?_, ?_⟩
  · rw [addDma, hc]
    simp only [menCreateDmachan, isErr_errPtr, h.slots, menDmaRemoveAll_chans]
    rw [if_pos hroom]
  · rw [Ledger.holds_releaseAll]
    intro hholds
    refine h.live.not_release_twice c (hholds.perm ?_)
    exact ((List.reverse_perm new).append_right chans).trans List.perm_append_comm

theorem addDma_full (hfull : s.nc.length ≤ s.newindex) :
    addDma create existing s fpga = .error (.halt .outOfBounds) := by
  rw [addDma]
  exact if_neg (Nat.not_lt.mpr hfull)

/-- The number that a failing allocation returns is none that `IS_ERR` knows. -/
theorem addDma_noMem (h : Filling chans existing total new s) (fpga : Nat) (hc : create s.newindex = .noMem)
    (hlt : s.newindex < total) :
    ∃ s', addDma create existing s fpga = .ok s' ∧ Spoiled existing total s' := by
  have hroom : s.newindex < s.nc.length := h.size.symm ▸ hlt
  have hindex := h.newindex
  have herr : (DmaPtr.errPtr enomem.1).isErr = none := by decide
  refine ⟨_, by rw [addDma, hc]; simp only [menCreateDmachan, herr]; rw [if_pos hroom], ?_⟩
  constructor
  · simpa using h.size
  · exact hlt
  · rw [take_set_drop hroom (by omega)]
    exact ⟨_, List.mem_append_right _ List.mem_cons_self, fun c hchan => by cases hchan⟩

/-- Nothing can be taken back any more. -/
theorem addDma_spoiled (create : Nat → Creation) (fpga : Nat) (h : Spoiled existing total s) :
    (∃ s', addDma create existing s fpga = .ok s' ∧ Spoiled existing total s') ∨
      ∃ halt, addDma create existing s fpga = .error (.halt halt) := by
  rcases Nat.lt_or_ge s.newindex s.nc.length with hroom | hfull
  · obtain ⟨ptr, men, channels, hcreate⟩ :
        ∃ ptr men channels, menCreateDmachan s fpga (create s.newindex) = (ptr, men, channels) :=
      ⟨_, _, _, rfl⟩
    rw [addDma, hcreate]
    simp only [if_pos hroom]
    cases ptr.isErr with
    | some ret =>
      obtain ⟨halt, hremove⟩ := menDmaRemoveAll_spoiled h.slot channels
      exact .inr ⟨halt, by rw [hremove]⟩
    | none =>
      obtain ⟨bad, hbad, hnot⟩ := h.slot
      have hle : existing ≤ s.newindex := by
        have hpos := List.length_pos_of_mem hbad
        rw [List.length_drop, List.length_take] at hpos
        omega
      refine .inl ⟨_, rfl, by simpa using h.size, h.size ▸ hroom, ?_⟩
      rw [take_set_drop hroom hle]
      exact ⟨bad, List.mem_append_left _ hbad, hnot⟩
  · exact .inr ⟨_, addDma_full hfull⟩

/-! ### All new channels -/

def CreatedUpTo (create : Nat → Creation) (first last : Nat) : Prop :=
  ∀ i, first ≤ i → i < last → ∃ c, create i = .created c

theorem run_created (es : List Nat) (h : Filling chans existing total new s)
    (hall : CreatedUpTo create s.newindex (s.newindex + es.length)) (hfits : s.newindex + es.length ≤ total) :
    ∃ new s', run (addDma create existing) s es = .ok s' ∧ s'.newindex = s.newindex + es.length ∧
      Filling chans existing total new s' := by
  induction es generalizing s new with
  | nil => exact ⟨new, s, rfl, rfl, h⟩
  | cons fpga es ih =>
    rw [List.length_cons] at hall hfits
    obtain ⟨c, hc⟩ := hall s.newindex (Nat.le_refl _) (by omega)
    obtain ⟨t, ht, hfill⟩ := addDma_created h fpga hc (by omega)
    have hnext : t.newindex = s.newindex + 1 := by
      rw [hfill.newindex, h.newindex, List.length_append, List.length_singleton, Nat.add_assoc]
    obtain ⟨new', s', hrun, hindex, hfill'⟩ :=
      ih hfill (fun i hi hlt => hall i (by omega) (by omega)) (by omega)
    refine ⟨new', s', run_cons_ok.mpr ⟨t, ht, hrun⟩, ?_, hfill'⟩
    rw [hindex, hnext, List.length_cons]
    omega

theorem run_spoiled (create : Nat → Creation) (es : List Nat) (h : Spoiled existing total s) :
    (∃ s', run (addDma create existing) s es = .ok s' ∧ Spoiled existing total s') ∨
      ∃ halt, run (addDma create existing) s es = .error (.halt halt) := by
  induction es generalizing s with
  | nil => exact .inl ⟨s, rfl, h⟩
  | cons fpga es ih =>
    rw [run]
    rcases addDma_spoiled create fpga h with ⟨t, ht, ht'⟩ | ⟨halt, ht⟩
    · rw [ht]
      exact ih ht'
    · rw [ht]
      exact .inr ⟨halt, rfl⟩

/-! ### The numbers of channels -/

variable {b b' : ChannelTable} {queryDma : Nat → UInt32} {memory : Bool}

theorem counts_fst (h : b.men.activeFpgas ≤ b.men.dmacnt.length) :
    (b.counts queryDma).map Prod.fst = b.men.dmacnt.take b.men.activeFpgas := by
  apply List.ext_getElem
  · simp [ChannelTable.counts, h]
  · intro i hi hi'
    have hlt : i < b.men.dmacnt.length := by
      rw [List.length_take] at hi'
      omega
    simp only [ChannelTable.counts, List.getElem_map, List.getElem_range, List.getElem_take]
    exact List.getD_eq_getElem _ _ hlt

theorem newCounts_eq (h : b.men.activeFpgas ≤ b.men.dmacnt.length) :
    b.newCounts queryDma =
      (b.counts queryDma).map (fun p => p.2 % 256) ++ b.men.dmacnt.drop b.men.activeFpgas := by
  apply List.ext_getElem
  · simp [ChannelTable.newCounts, ChannelTable.counts]
    omega
  · intro i hi hi'
    simp only [ChannelTable.newCounts, ChannelTable.counts, List.getElem_map, List.getElem_zipIdx,
      List.getElem_append, List.length_map, List.length_range, List.getElem_range, List.getElem_drop,
      Nat.zero_add]
    split_ifs with hactive
    · rfl
    · congr 1
      omega

theorem counts_small (h : Populated b chans) (queryDma : Nat → UInt32) :
    ∀ p ∈ b.counts queryDma, p.1 < Counter.wrap ∧ p.2 < Counter.wrap := by
  intro p hp
  obtain ⟨i, hi, rfl⟩ := List.mem_map.mp hp
  have hlen : i < b.men.dmacnt.length := by
    rw [h.fpgas]
    exact Nat.lt_of_lt_of_le (List.mem_range.mp hi) h.active
  have hbyte := h.bytes _ (List.getElem_mem hlen)
  have hword := (queryDma i).toNat_lt
  unfold Counter.wrap
  refine ⟨?_, hword⟩
  rw [List.getD_eq_getElem _ _ hlen]
  omega

theorem existing_eq (h : Populated b chans) (queryDma : Nat → UInt32) :
    b.existing = ((b.counts queryDma).map Prod.fst).sum + (b.men.dmacnt.drop b.men.activeFpgas).sum := by
  rw [counts_fst (h.fpgas.symm ▸ h.active), ChannelTable.existing, ← List.sum_append, List.take_append_drop]

/-- No active FPGA reports fewer channels than it has, and the others have none. -/
structure GrowsOnly (b : ChannelTable) (queryDma : Nat → UInt32) : Prop where
  active : ∀ p ∈ b.counts queryDma, p.1 ≤ p.2
  others : (b.men.dmacnt.drop b.men.activeFpgas).sum = 0

/-- The channels to be created fill the table, or they are too many for it. -/
theorem created_total (h : Populated b chans) (queryDma : Nat → UInt32) :
    b.requested queryDma ≤ b.existing + (toCreate 0 (b.counts queryDma)).length ∧
      (b.existing + (toCreate 0 (b.counts queryDma)).length ≤ b.requested queryDma ↔
        GrowsOnly b queryDma ∧ b.reported queryDma < Counter.wrap) := by
  have hexisting := existing_eq h queryDma
  have hrequested : b.requested queryDma < Counter.wrap := Nat.mod_lt _ (by decide)
  have hreported : b.requested queryDma ≤ b.reported queryDma := Nat.mod_le _ _
  have hmod : b.reported queryDma < Counter.wrap → b.requested queryDma = b.reported queryDma :=
    fun h => Nat.mod_eq_of_lt h
  have hsum : b.reported queryDma = ((b.counts queryDma).map Prod.snd).sum := rfl
  rcases toCreate_length (counts_small h queryDma) 0 with ⟨hall, hlen⟩ | ⟨hnot, hlen⟩
  · refine ⟨by omega, fun hle => ⟨⟨hall, by omega⟩, by omega⟩, ?_⟩
    rintro ⟨⟨_, hothers⟩, hlt⟩
    have := hmod hlt
    omega
  · exact ⟨by omega, fun hle => by omega, fun hgrows => absurd hgrows.1.active hnot⟩

/-- The counts are those that were reported, as far as they fit into a byte. -/
theorem newCounts_sum (h : Populated b chans) (hothers : (b.men.dmacnt.drop b.men.activeFpgas).sum = 0)
    (hfits : b.reported queryDma ≤ MEN_MAX_DMA) : (b.newCounts queryDma).sum = b.reported queryDma := by
  have hbyte : ∀ p ∈ b.counts queryDma, p.2 % 256 = p.2 := by
    intro p hp
    have hle : p.2 ≤ b.reported queryDma := List.le_sum_of_mem (List.mem_map_of_mem hp)
    unfold MEN_MAX_DMA at hfits
    exact Nat.mod_eq_of_lt (by omega)
  rw [newCounts_eq (h.fpgas.symm ▸ h.active), List.sum_append, hothers, List.map_congr_left hbyte]
  rfl

/-! ### When the channels are added -/

/-- The first channel that is not created fails to be registered. -/
def FailsCleanly (create : Nat → Creation) (first last : Nat) : Prop :=
  ∃ f, first ≤ f ∧ f < last ∧ CreatedUpTo create first f ∧ ∃ c error, create f = .unregistered c error

theorem createdUpTo_or_first (create : Nat → Creation) {first last : Nat} (hle : first ≤ last) :
    CreatedUpTo create first last ∨
      ∃ f, first ≤ f ∧ f < last ∧ CreatedUpTo create first f ∧ ∀ c, create f ≠ .created c := by
  induction last, hle using Nat.le_induction with
  | base => exact .inl fun i hi hlt => absurd hlt (Nat.not_lt.mpr hi)
  | succ last hle ih =>
    rcases ih with hall | ⟨f, hf, hlt, hall, hnot⟩
    · by_cases hlast : ∃ c, create last = .created c
      · refine .inl fun i hi hlt => ?_
        rcases Nat.lt_succ_iff_lt_or_eq.mp hlt with hbefore | rfl
        · exact hall i hi hbefore
        · exact hlast
      · exact .inr ⟨last, hle, Nat.lt_succ_self _, hall, fun c hc => hlast ⟨c, hc⟩⟩
    · exact .inr ⟨f, hf, Nat.lt_succ_of_lt hlt, hall, hnot⟩

/-- There is only one first failure. -/
theorem failsCleanly_of_first {first last f : Nat} (hf : first ≤ f) (hall : CreatedUpTo create first f)
    (hnot : ∀ c, create f ≠ .created c) (h : FailsCleanly create first last) :
    ∃ c error, create f = .unregistered c error := by
  obtain ⟨g, hg, _, hall', c, error, hc⟩ := h
  rcases lt_trichotomy f g with hlt | rfl | hgt
  · obtain ⟨c', hc'⟩ := hall' f hf hlt
    exact absurd hc' (hnot c')
  · exact ⟨c, error, hc⟩
  · obtain ⟨c', hc'⟩ := hall g hg hgt
    rw [hc] at hc'
    cases hc'

/-- The state in front of the first new channel. -/
def startAddition (b : ChannelTable) (queryDma : Nat → UInt32) : Addition where
  men := b.men
  nc := List.replicate (b.requested queryDma) .null
  newindex := b.existing
  channels := b.channels

theorem startAddition_filling (h : Populated b chans) (queryDma : Nat → UInt32) :
    Filling chans b.existing (b.requested queryDma) [] (startAddition b queryDma) where
  newindex := rfl
  size := List.length_replicate
  slots := by
    rw [List.map_nil, List.drop_eq_nil_iff, List.length_take]
    exact Nat.min_le_left _ _
  live := by
    rw [List.append_nil]
    exact h.live

/-- What is done once the table is allocated. -/
theorem menAddDmas_run (h : Populated b chans) (hmore : b.existing < b.requested queryDma) :
    menAddDmas b queryDma true create =
      match run (addDma create b.existing) (startAddition b queryDma) (toCreate 0 (b.counts queryDma)) with
      | .error (.halt h) => .error h
      | .error (.failed ret channels) => .ok (ret, { b with channels })
      | .ok s => .ok (0,
          { men := { s.men with dmacnt := b.newCounts queryDma }
            dmachannels := some (chans.map .chan ++ s.nc.drop b.existing)
            channels := s.channels }) := by
  have hslots : b.existing = b.slots.length := by
    rw [h.slots, List.length_map]
    exact h.counts
  have hrun := addFpgas_eq_run create b.existing
    (fun p hp => (counts_small h queryDma p hp).1) 0 (startAddition b queryDma)
  rw [menAddDmas, if_neg (Nat.not_le.mpr hmore), if_neg (by decide), ← hrun]
  split <;> rename_i heq <;> simp only [startAddition, heq]
  rw [if_pos (Nat.le_of_eq hslots), hslots, List.take_length, h.slots]

theorem chans_of_slots {slots : List DmaPtr} (h : slots = (chans ++ new).map .chan) :
    ∀ ptr ∈ slots, ∃ c, ptr = .chan c := by
  intro ptr hptr
  rw [h] at hptr
  obtain ⟨c, _, rfl⟩ := List.mem_map.mp hptr
  exact ⟨c, rfl⟩

/-- Without more channels nothing is done. -/
theorem addLaw_unchanged (h : Populated b chans) (hle : b.requested queryDma ≤ b.existing) :
    AddLaw b chans queryDma memory create ↔
      b.reported queryDma = b.existing ∧ b.reported queryDma ≤ MEN_MAX_DMA := by
  have hlength : b.slots.length = b.existing := by
    rw [h.slots, List.length_map]
    exact h.counts.symm
  have hrun : menAddDmas b queryDma memory create = .ok (0, b) := if_pos hle
  constructor
  · rintro ⟨ret, b', hok, hlaw⟩
    obtain ⟨rfl, rfl⟩ := Prod.mk.inj (Except.ok.inj (hrun.symm.trans hok))
    rcases hlaw with ⟨_, hadded⟩ | ⟨hneg, _⟩
    · exact ⟨hadded.length.symm.trans hlength, hadded.fits⟩
    · exact absurd hneg (Int.lt_irrefl 0)
  · rintro ⟨hsame, hfits⟩
    refine ⟨0, b, hrun, .inl ⟨rfl, ⟨[], ?_, ?_⟩, hlength.trans hsame.symm, hfits, hlength.symm⟩⟩
    · rw [List.append_nil]
      exact h.slots
    · rw [List.append_nil]
      exact h.live

theorem addLaw_noMemory (h : Populated b chans) (hmore : b.existing < b.requested queryDma) :
    AddLaw b chans queryDma false create := by
  refine ⟨-enomem.1, b, ?_, .inr ⟨by decide, rfl, rfl, h.live⟩⟩
  rw [menAddDmas, if_neg (Nat.not_le.mpr hmore), if_pos rfl]

/-- The whole table is filled, and channels may be left over. -/
theorem addLaw_created (h : Populated b chans) (hmore : b.existing < b.requested queryDma)
    (hall : CreatedUpTo create b.existing (b.requested queryDma)) :
    AddLaw b chans queryDma true create ↔ GrowsOnly b queryDma ∧ b.reported queryDma ≤ MEN_MAX_DMA := by
  have hfill := startAddition_filling h queryDma
  obtain ⟨hleast, htotal⟩ := created_total h queryDma
  rw [AddLaw, menAddDmas_run h hmore]
  generalize hes : toCreate 0 (b.counts queryDma) = es at hleast htotal
  rcases Nat.lt_or_ge (b.requested queryDma) (b.existing + es.length) with hover | hfits
  · -- the first channel that is too many is written behind the table
    obtain ⟨first, last, rfl, hlen⟩ : ∃ first last, es = first ++ last ∧
        b.existing + first.length = b.requested queryDma :=
      ⟨es.take (b.requested queryDma - b.existing), es.drop (b.requested queryDma - b.existing),
        (List.take_append_drop _ _).symm, by rw [List.length_take]; omega⟩
    obtain ⟨new, s', hrun, hindex, hfill'⟩ := run_created first hfill
      (fun i hi hlt => hall i hi (by rw [← hlen]; exact hlt)) (Nat.le_of_eq hlen)
    obtain ⟨fpga, rest, rfl⟩ : ∃ fpga rest, last = fpga :: rest := by
      apply List.exists_cons_of_ne_nil
      rintro rfl
      rw [List.append_nil] at hover
      omega
    have hfull : s'.nc.length ≤ s'.newindex := by
      rw [hfill'.size, hindex]
      exact Nat.le_of_eq hlen.symm
    rw [run_append, hrun]
    simp only [bind, Except.bind, run, addDma_full hfull]
    constructor
    · rintro ⟨_, _, hok, _⟩
      cases hok
    · rintro ⟨hgrows, hmax⟩
      unfold MEN_MAX_DMA at hmax
      have hle := htotal.mpr ⟨hgrows, Nat.lt_of_le_of_lt hmax (by decide)⟩
      exact absurd hle (Nat.not_le.mpr hover)
  · have hlen : b.existing + es.length = b.requested queryDma := Nat.le_antisymm hfits hleast
    obtain ⟨hgrows, hword⟩ := htotal.mp hfits
    have hreported : b.requested queryDma = b.reported queryDma := Nat.mod_eq_of_lt hword
    obtain ⟨new, s', hrun, hindex, hfill'⟩ := run_created es hfill
      (fun i hi hlt => hall i hi (by rw [← hlen]; exact hlt)) (Nat.le_of_eq hlen)
    have hnew : s'.nc.drop b.existing = new.map .chan := by
      have hfilled : s'.newindex = s'.nc.length := (hindex.trans hlen).trans hfill'.size.symm
      have hslots := hfill'.slots
      rwa [hfilled, List.take_length] at hslots
    have htable : chans.map DmaPtr.chan ++ s'.nc.drop b.existing = (chans ++ new).map .chan := by
      rw [hnew, List.map_append]
    have hsize : (chans.map DmaPtr.chan ++ s'.nc.drop b.existing).length = b.reported queryDma := by
      have hcounts := h.counts
      rw [List.length_append, List.length_map, List.length_drop, hfill'.size, ← hcounts, ← hreported]
      exact Nat.add_sub_cancel' (Nat.le_of_lt hmore)
    rw [hrun]
    constructor
    · rintro ⟨ret, b', hok, hlaw⟩
      obtain ⟨rfl, rfl⟩ := Prod.mk.inj (Except.ok.inj hok)
      rcases hlaw with ⟨_, hadded⟩ | ⟨hneg, _⟩
      · exact ⟨hgrows, hadded.fits⟩
      · exact absurd hneg (Int.lt_irrefl 0)
    · rintro ⟨_, hmax⟩
      exact ⟨0, _, rfl, .inl ⟨rfl, ⟨new, htable, hfill'.live⟩, hsize, hmax,
        (newCounts_sum h hgrows.others hmax).trans hsize.symm⟩⟩

/-- A new channel that is not created stops the loop well only when it fails to be registered. -/
theorem addLaw_failed (h : Populated b chans) (hmore : b.existing < b.requested queryDma) {f : Nat}
    (hf : b.existing ≤ f) (hlt : f < b.requested queryDma) (hall : CreatedUpTo create b.existing f)
    (hnot : ∀ c, create f ≠ .created c) :
    AddLaw b chans queryDma true create ↔ ∃ c error, create f = .unregistered c error := by
  have hfill := startAddition_filling h queryDma
  obtain ⟨hleast, _⟩ := created_total h queryDma
  rw [AddLaw, menAddDmas_run h hmore]
  generalize hes : toCreate 0 (b.counts queryDma) = es at hleast
  obtain ⟨first, last, rfl, hlen⟩ : ∃ first last, es = first ++ last ∧ b.existing + first.length = f :=
    ⟨es.take (f - b.existing), es.drop (f - b.existing), (List.take_append_drop _ _).symm, by
      rw [List.length_take]
      omega⟩
  obtain ⟨new, s', hrun, hindex, hfill'⟩ := run_created first hfill
    (fun i hi hlt => hall i hi (by rw [← hlen]; exact hlt)) (by
      show b.existing + first.length ≤ b.requested queryDma
      omega)
  obtain ⟨fpga, rest, rfl⟩ : ∃ fpga rest, last = fpga :: rest := by
    apply List.exists_cons_of_ne_nil
    rintro rfl
    rw [List.append_nil] at hleast
    omega
  have hnext : s'.newindex = f := hindex.trans hlen
  have hroom : s'.newindex < b.requested queryDma := hnext.symm ▸ hlt
  rw [run_append, hrun]
  simp only [bind, Except.bind, run]
  rcases hc : create f with _ | ⟨c, error⟩ | ⟨c, error⟩ | c
  · obtain ⟨t, ht, hspoiled⟩ := addDma_noMem hfill' fpga (hnext.symm ▸ hc) hroom
    rw [ht]
    refine iff_of_false ?_ (by rintro ⟨_, _, hcreate⟩; cases hcreate)
    rintro ⟨ret, b', hok, hlaw⟩
    rcases run_spoiled create rest hspoiled with ⟨s'', hrest, hspoiled'⟩ | ⟨halt, hrest⟩
    · simp only [hrest] at hok
      obtain ⟨rfl, rfl⟩ := Prod.mk.inj (Except.ok.inj hok)
      rcases hlaw with ⟨_, hadded⟩ | ⟨hneg, _⟩
      · obtain ⟨new', htable, _⟩ := hadded.table
        obtain ⟨ptr, hptr, hbad⟩ := hspoiled'.slot
        have hmem : ptr ∈ s''.nc.drop b.existing :=
          List.mem_of_mem_take (by rwa [List.drop_take] at hptr)
        obtain ⟨c, hchan⟩ := chans_of_slots htable ptr (List.mem_append_right _ hmem)
        exact hbad c hchan
      · exact absurd hneg (Int.lt_irrefl 0)
    · simp only [hrest] at hok
      cases hok
  · obtain ⟨channels, ht, hlive⟩ := addDma_unregistered hfill' fpga (hnext.symm ▸ hc) hroom
    rw [ht]
    have hpos := error.2.1
    exact iff_of_true ⟨_, _, rfl, .inr ⟨by omega, rfl, rfl, hlive⟩⟩ ⟨c, error, rfl⟩
  · obtain ⟨channels, ht, hdead⟩ := addDma_unlinked hfill' fpga (hnext.symm ▸ hc) hroom
    rw [ht]
    have hpos := error.2.1
    refine iff_of_false ?_ (by rintro ⟨_, _, hcreate⟩; cases hcreate)
    rintro ⟨ret, b', hok, hlaw⟩
    obtain ⟨rfl, rfl⟩ := Prod.mk.inj (Except.ok.inj hok)
    rcases hlaw with ⟨hzero, _⟩ | ⟨_, hrestored⟩
    · omega
    · exact hdead hrestored.removed
  · exact absurd hc (hnot c)

/-- The law holds when the device reports as many channels as there are, and when it reports
more: without memory for the table, when the first failure is one of the registration, and when
every channel is created, no FPGA loses one and the board has no more of them than it may. -/
theorem add_law_iff (h : Populated b chans) (queryDma : Nat → UInt32) (memory : Bool)
    (create : Nat → Creation) :
    AddLaw b chans queryDma memory create ↔
      b.requested queryDma ≤ b.existing ∧ b.reported queryDma = b.existing ∧
          b.reported queryDma ≤ MEN_MAX_DMA ∨
        b.existing < b.requested queryDma ∧
          (memory = false ∨ FailsCleanly create b.existing (b.requested queryDma) ∨
            CreatedUpTo create b.existing (b.requested queryDma) ∧ GrowsOnly b queryDma ∧
              b.reported queryDma ≤ MEN_MAX_DMA) := by
  rcases Nat.lt_or_ge b.existing (b.requested queryDma) with hmore | hle
  · have hunchanged : ¬ (b.requested queryDma ≤ b.existing ∧ b.reported queryDma = b.existing ∧
        b.reported queryDma ≤ MEN_MAX_DMA) := fun hsame => Nat.not_le.mpr hmore hsame.1
    rw [or_iff_right hunchanged, and_iff_right hmore]
    cases memory with
    | false => exact iff_of_true (addLaw_noMemory h hmore) (.inl rfl)
    | true =>
      rw [or_iff_right (by decide : ¬ true = false)]
      rcases createdUpTo_or_first create (Nat.le_of_lt hmore) with hall | ⟨f, hf, hlt, hall, hnot⟩
      · have hclean : ¬ FailsCleanly create b.existing (b.requested queryDma) := by
          rintro ⟨f, hf, hlt, _, c, error, hc⟩
          obtain ⟨c', hc'⟩ := hall f hf hlt
          rw [hc] at hc'
          cases hc'
        rw [addLaw_created h hmore hall, or_iff_right hclean, and_iff_right hall]
      · rw [addLaw_failed h hmore hf hlt hall hnot]
        constructor
        · exact fun hc => .inl ⟨f, hf, hlt, hall, hc⟩
        · rintro (hclean | ⟨hcreated, _⟩)
          · exact failsCleanly_of_first hf hall hnot hclean
          · obtain ⟨c, hc⟩ := hcreated f hf hlt
            exact absurd hc (hnot c)
  · rw [addLaw_unchanged h hle, and_iff_right hle, or_iff_left]
    exact fun hmore => Nat.not_lt.mpr hle hmore.1

/-! ### The board that gives channels back -/

def DmaPtr.chan? : DmaPtr → Option ChanRef
  | .chan c => some c
  | _ => none

/-- The table as `men_alloc_dma` takes it. -/
def ChannelTable.board (b : ChannelTable) : DmaBoard where
  men := b.men
  dmachannels := b.dmachannels.map fun table => table.map DmaPtr.chan?

/-- Channels that were added can be given back. -/
theorem Added.allocated (h : Added chans total b') (hnodup : b'.channels.taken.Nodup) :
    ∃ all, Allocated b'.board all := by
  obtain ⟨new, htable, hlive⟩ := h.table
  have hlength : b'.slots.length = (chans ++ new).length := by rw [htable, List.length_map]
  refine ⟨chans ++ new, (List.nodup_append.mp (hlive.nodup_iff.mpr hnodup)).2.1, ?_, ?_, fun hne => ?_⟩
  · exact (h.counts.trans hlength).symm
  · show b'.men.dmacnt.sum ≤ MEN_MAX_DMA
    rw [h.counts, h.length]
    exact h.fits
  · refine ⟨[], ?_⟩
    have hchans : (chans ++ new).map (DmaPtr.chan? ∘ DmaPtr.chan) = (chans ++ new).map some := rfl
    rw [ChannelTable.slots] at htable
    cases hdma : b'.dmachannels with
    | none =>
      rw [hdma] at htable
      exact absurd (List.map_eq_nil_iff.mp htable.symm) hne
    | some table =>
      rw [hdma] at htable
      rw [ChannelTable.board, hdma, Option.map_some, List.append_nil, ← hchans, ← List.map_map, ← htable]
      rfl

section Example

/-- Two FPGAs, of which the first has two channels and the second `n`. -/
def boardWith (n : Nat) : ChannelTable where
  men := { activeFpgas := 2, dmacnt := [2, n] }
  dmachannels := some ((List.range (2 + n)).map .chan)
  channels := { taken := List.range (2 + n) }

theorem boardWith_populated {n : Nat} (hn : n < 256) : Populated (boardWith n) (List.range (2 + n)) where
  slots := rfl
  live := .refl _
  counts := by simp [boardWith]
  fpgas := rfl
  active := Nat.le_refl 2
  bytes := by simp [boardWith, hn]

def reports (first second : UInt32) (fpga : Nat) : UInt32 := if fpga = 0 then first else second

theorem add_law_three : AddLaw (boardWith 0) [0, 1] (reports 2 3) true .created :=
  (add_law_iff (boardWith_populated (by decide)) (reports 2 3) true .created).mpr
    (.inr ⟨by decide, .inr (.inr ⟨fun i _ _ => ⟨i, rfl⟩, ⟨by decide, by decide⟩, by decide⟩)⟩)

/-- The first FPGA loses a channel and the second gets two; the memory for a channel runs out;
the link of a channel cannot be made. -/
theorem add_law_broken :
    ¬ AddLaw (boardWith 2) [0, 1, 2, 3] (reports 1 4) true .created ∧
      ¬ AddLaw (boardWith 0) [0, 1] (reports 2 1) true (fun _ => .noMem) ∧
        ¬ AddLaw (boardWith 0) [0, 1] (reports 2 1) true (fun i => .unlinked i enomem) := by
  refine ⟨fun h => ?_, fun h => ?_, fun h => ?_⟩
  · have hgrows := ((addLaw_created (boardWith_populated (by decide)) (by decide)
      fun i _ _ => ⟨i, rfl⟩).mp h).1
    exact absurd hgrows.active (by decide)
  · obtain ⟨_, _, hc⟩ := (addLaw_failed (boardWith_populated (by decide)) (by decide) (Nat.le_refl 2)
      (by decide) (fun i hi hlt => absurd hlt (Nat.not_lt.mpr hi)) fun _ hc => by cases hc).mp h
    cases hc
  · obtain ⟨_, _, hc⟩ := (addLaw_failed (boardWith_populated (by decide)) (by decide) (Nat.le_refl 2)
      (by decide) (fun i hi hlt => absurd hlt (Nat.not_lt.mpr hi)) fun _ hc => by cases hc).mp h
    cases hc

end Example

end MenableDriver
