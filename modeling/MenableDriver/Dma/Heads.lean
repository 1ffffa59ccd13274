import MenableDriver.Dma.Buffers

/-!
# Buffer heads and registered buffers

The part of `menable_mem.c` that creates and removes heads and buffers, and the
delete and free requests that call it. What the kernel decides is an argument: the
address an allocation returned, or `none` where an allocation, the pinning or the
mapping of the user pages or the SGL construction failed.
-/

namespace MenableDriver

set_option autoImplicit false

def meGetBufHead (m : Men) (num : Nat) : Option HeadRef :=
  m.headsList.find? fun h => decide ((m.head h).id = num)

def meGetSubBufByHead (m : Men) (h : HeadRef) (bufidx : Int) : Option SbRef :=
  if bufidx < 0 then none else ((m.head h).bufs[bufidx.toNat]?).join

namespace Men

/-- Memory that is not freed yet is not handed out again. -/
def headInUse (m : Men) (h : HeadRef) : Bool :=
  decide (h ∈ m.headsList) || decide (h ∈ m.doomedHeads)

def sbInUse (m : Men) (b : SbRef) : Bool :=
  decide (b ∈ m.doomed) ||
    (m.headsList ++ m.doomedHeads).any fun h => decide (some b ∈ (m.head h).bufs)

def setSlot (m : Men) (h : HeadRef) (i : Nat) (slot : Option SbRef) : Men :=
  m.setHead h { m.head h with
    bufs := (m.head h).bufs.set i slot
    numSb_lt := by simpa using (m.head h).numSb_lt }

end Men

/-- One above the highest id in use. -/
def nextHeadId (m : Men) : Nat :=
  m.headsList.foldl (fun next h => if next ≤ (m.head h).id then (m.head h).id + 1 else next) 0

def menCreateBufHead (m : Men) (subbufs : Int) (mem : Option HeadRef) :
    Res (Men × Except Errno Nat) :=
  if subbufs ≤ 0 then .ok (m, .error .EINVAL)
  else
    match mem with
    | none => .ok (m, .error .ENOMEM)
    | some h =>
      if m.headInUse h then .error .blocked
      else if hlt : subbufs.toNat < kcallocLimit then
        let hd : Dmahead :=
          { id := nextHeadId m
            bufs := List.replicate subbufs.toNat none
            numSb_lt := by simpa using hlt }
        let m' := (m.setHead h hd).modBuf (.dummy h) fun _ =>
          { index := -1, bufLength := 18446744073709551615 }
        .ok ({ m' with headsList := m.headsList ++ [h] }, .ok hd.id)
      else .ok (m, .error .ENOMEM)

/-- `struct men_io_range`. -/
structure IoRange where
  start : Nat
  length : Nat
  subnr : Int
  headnr : Nat

/-- `men_create_userbuf` up to the first release of `buffer_heads_lock`. -/
def menCreateUserbufCheck (m : Men) (r : IoRange) : Res Ret :=
  if 16 * 1024 * 1024 * 1024 < r.length then .ok (some .EINVAL)
  else if r.start % 4 ≠ 0 then .ok (some .EINVAL)
  else
    match meGetBufHead m r.headnr with
    | none => .ok (some .EINVAL)
    | some h =>
      if (m.head h).bufs.length ≤ r.subnr then .ok (some .EINVAL)
      else if r.subnr < 0 then .error .outOfBounds
      else if ((m.head h).bufs[r.subnr.toNat]?).join.isSome then .ok (some .EBUSY)
      else .ok none

/-- The new buffer and its slot. -/
def putUserbuf (m : Men) (r : IoRange) (h : HeadRef) (b : SbRef) : Men :=
  (m.modBuf (.sb b) fun _ => { index := r.subnr, listname := .free, bufLength := r.length }).setSlot h
    r.subnr.toNat (some b)

def addToFree (m : Men) (c : ChanRef) (b : BufRef) : Men :=
  m.setChan c (((m.chan c).listAddTail b .free).incCount .free)

/-- The end of `men_create_userbuf`: the head is looked up again. -/
def menCreateUserbufStore (m : Men) (r : IoRange) (b : SbRef) : Res (Men × Ret) :=
  match meGetBufHead m r.headnr with
  | none => .ok (m, some .EINVAL)
  | some h =>
    if r.subnr < 0 ∨ (m.head h).bufs.length ≤ r.subnr then .error .outOfBounds
    else
      match (m.head h).chan with
      | none => .ok (putUserbuf m r h b, none)
      | some c => .ok (addToFree (putUserbuf m r h b) c (.sb b), none)

def menCreateUserbuf (m : Men) (r : IoRange) (mem : Option SbRef) : Res (Men × Ret) :=
  -- the ioctl wrapper refuses empty ranges
  if r.length = 0 then .ok (m, some .EFAULT)
  else do
    match ← menCreateUserbufCheck m r with
    | some e => .ok (m, some e)
    | none =>
      match mem with
      | none => .ok (m, some .ENOMEM)
      | some b => if m.sbInUse b then .error .blocked else menCreateUserbufStore m r b

/-- The buffer leaves the list it is in and the counter of the list it names. -/
def dropFromChannel (m : Men) (c : ChanRef) (b : BufRef) : Res Men := do
  let n := (m.buf b).listname
  let ch ← if n ≠ .noList then (m.chan c).listDel b else .ok (m.chan c)
  .ok (m.setChan c (ch.decCount n))

/-- The test for `index` lets `num_sb` pass. -/
def menFreeUserbuf (m : Men) (h : HeadRef) (index : Int) : Res (Men × Ret) :=
  if index < 0 ∨ (m.head h).bufs.length < index then .ok (m, some .EINVAL)
  else
    match (m.head h).bufs[index.toNat]? with
    | none => .error .outOfBounds
    | some none => .ok (m, some .EINVAL)
    | some (some b) =>
      match (m.head h).chan with
      | none => .ok (m.setSlot h index.toNat none, none)
      | some c =>
        if (m.chan c).state ≠ .stopped ∧ (m.buf (.sb b)).listname = .hot then .ok (m, some .EBUSY)
        else do
          let m ← dropFromChannel m c (.sb b)
          .ok (m.setSlot h index.toNat none, none)

/-- The delete request under `buffer_heads_lock`; a buffer it unlinks is destroyed
after the lock is dropped. -/
def menIoctlDelVirtUserBuffer (m : Men) (headnr : Nat) (index : Int) : Res (Men × Ret) :=
  match meGetBufHead m headnr with
  | none => .ok (m, some .EINVAL)
  | some h => do
    let sub := meGetSubBufByHead m h index
    match ← menFreeUserbuf m h index with
    | (m, some e) => .ok (m, some e)
    | (m, none) => .ok ({ m with doomed := sub.toList ++ m.doomed }, none)

/-- `men_destroy_sb` of an unlinked buffer. -/
def menDestroySb (m : Men) (b : SbRef) : Res Men :=
  if b ∈ m.doomed then .ok { m with doomed := m.doomed.erase b } else .error .blocked

def menReleaseBufHead (m : Men) (h : HeadRef) : Men × Ret :=
  match (m.head h).chan with
  | none => ({ m with headsList := m.headsList.erase h }, none)
  | some c =>
    if (m.chan c).state = .started then (m, some .EBUSY)
    else
      ({ m.setChan c { m.chan c with active := none } with
          headsList := m.headsList.erase h }, none)

def menIoctlFreeVirtBuffer (m : Men) (headnr : Nat) : Men × Ret :=
  match meGetBufHead m headnr with
  | none => (m, none)
  | some h =>
    match menReleaseBufHead m h with
    | (m, some e) => (m, some e)
    | (m, none) => ({ m with doomedHeads := h :: m.doomedHeads }, none)

/-- `men_free_buf_head` of a released head: every buffer it still has is destroyed
with it. -/
def menFreeBufHead (m : Men) (h : HeadRef) : Res Men :=
  if h ∈ m.doomedHeads then .ok { m with doomedHeads := m.doomedHeads.erase h }
  else .error .blocked

end MenableDriver
