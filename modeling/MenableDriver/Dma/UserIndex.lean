import MenableDriver.Dma.Runs

/-!
# The numbers a process passes

The buffer requests of `menable_ioctl.c` as a process makes them: the number of a head has
32 bits (the free request passes a whole `unsigned long`), the number of a buffer has 64 bits,
or 32 bits when it comes from a 32-bit process. Every request converts the numbers in its own
way before it looks for the buffer.
-/

namespace MenableDriver

set_option autoImplicit false

open Transition

/-- The number of a buffer in the structure of a request. -/
inductive UserIndex where
  | native (index : BitVec 64)
  | compat (index : BitVec 32)
deriving DecidableEq, Repr

namespace UserIndex

/-- The number the process means. -/
def number : UserIndex → Int
  | native i => i.toInt
  | compat i => i.toInt

/-- The `long` that the driver works with; an `int` is extended by its sign. -/
def long : UserIndex → BitVec 64
  | native i => i
  | compat i => i.signExtend 64

theorem long_toInt (i : UserIndex) : i.long.toInt = i.number := by
  cases i with
  | native i => rfl
  | compat i => exact BitVec.toInt_signExtend_of_le (by decide)

end UserIndex

/-- A request that names a buffer or a head; `add` and `store` are the two sections of the
add request. -/
inductive BufIoctl where
  | add (start length : BitVec 64) (subnr : UserIndex) (headnr : BitVec 32)
  | store (start length : BitVec 64) (subnr : UserIndex) (headnr : BitVec 32) (b : SbRef)
  | del (headnr : BitVec 32) (index : UserIndex)
  | free (arg : BitVec 64)
  | queue (head : BitVec 32) (index : BitVec 64)
  | unlock (headnr : BitVec 32) (index : UserIndex)
  | status (head : BitVec 32) (index : BitVec 64)

def ioRange (start length : BitVec 64) (subnr : UserIndex) (headnr : BitVec 32) : IoRange :=
  { start := start.toNat
    length := length.toNat
    subnr := subnr.long.toInt
    headnr := headnr.toNat }

def menIoctlAddVirtUserBuffer (m : Men) (r : IoRange) : Res Ret :=
  if r.length = 0 then .ok (some .EFAULT) else menCreateUserbufCheck m r

/-- `men_queue_buffer` takes the number as an `unsigned int`. -/
def menIoctlQueueBuffer (m : Men) (head : BitVec 32) (index : BitVec 64) : QueueCheck :=
  menQueueBufferCheck m head.toNat (index.setWidth 32).toNat

/-- The output half of `struct bufstatus`. -/
structure BufStatus where
  free : Nat
  grabbed : Nat
  locked : Nat
  lost : Nat
  isLocked : Bool
deriving DecidableEq, Repr

def channelStatus (m : Men) (h : HeadRef) (isLocked : Bool) : Except Errno BufStatus :=
  match (m.head h).chan with
  | none => .error .EINVAL
  | some c =>
    .ok
      { free := (m.chan c).count .free
        grabbed := (m.chan c).count .grabbed
        locked := (m.chan c).count .noList
        lost := (m.chan c).lostCount
        isLocked := isLocked }

def listLocked (n : ListName) : Bool := decide (n ≠ .free) && decide (n ≠ .ready)

def menIoctlGetBufferStatus (m : Men) (head : Nat) (index : Int) : Res (Except Errno BufStatus) :=
  match meGetBufHead m head with
  | none => .ok (.error .EINVAL)
  | some h =>
    if (m.head h).bufs.length ≤ index ∨ index < -1 then .ok (.error .EINVAL)
    else if index = -1 then .ok (channelStatus m h false)
    else
      match (m.head h).bufs[index.toNat]? with
      | none => .error .outOfBounds
      | some none => .ok (.error .EINVAL)
      | some (some b) => .ok (channelStatus m h (listLocked (m.buf (.sb b)).listname))

/-- The slot with the number `i` of the head with the number `headnr`. -/
structure Men.Names (m : Men) (headnr : Nat) (i : Int) (h : HeadRef) : Prop where
  head : meGetBufHead m headnr = some h
  nonneg : 0 ≤ i
  inside : i < (m.head h).bufs.length

/-- The buffer in that slot. -/
structure Men.NamesBuf (m : Men) (headnr : Nat) (i : Int) (h : HeadRef) (b : SbRef) : Prop
    extends m.Names headnr i h where
  buf : (m.head h).bufs[i.toNat]? = some (some b)

/-- A head whose channel does not make a queue request fail. -/
def AcceptsQueueing (m : Men) (h : HeadRef) : Prop :=
  ∀ c, (m.head h).chan = some c →
    (m.chan c).state = .stopped ∨ (m.chan c).state = .stopping ∨ (m.chan c).mode = DMA_SELECTIVEMODE

/-- `bufs` is not read past its ends, and what a request that succeeds has worked on is what
the process named. -/
def IndexSafe (m : Men) : BufIoctl → Prop
  | .add start length subnr headnr =>
    let added := menIoctlAddVirtUserBuffer m (ioRange start length subnr headnr)
    added ≠ .error .outOfBounds ∧ (added = .ok none → ∃ h, m.Names headnr.toNat subnr.number h)
  | .store start length subnr headnr b =>
    let stored := menCreateUserbufStore m (ioRange start length subnr headnr) b
    stored ≠ .error .outOfBounds ∧ ∀ m', stored = .ok (m', none) →
      ∃ h, m.Names headnr.toNat subnr.number h ∧
        (m'.head h).bufs = (m.head h).bufs.set subnr.number.toNat (some b)
  | .del headnr index =>
    let deleted := menIoctlDelVirtUserBuffer m headnr.toNat index.long.toInt
    deleted ≠ .error .outOfBounds ∧ ∀ m', deleted = .ok (m', none) →
      ∃ h b, m.NamesBuf headnr.toNat index.number h b ∧ m'.doomed = b :: m.doomed ∧
        (m'.head h).bufs = (m.head h).bufs.set index.number.toNat none
  | .free arg =>
    ∀ m', menIoctlFreeVirtBuffer m (arg.setWidth 32).toNat = (m', none) →
      m' = m ∨ ∃ h, meGetBufHead m arg.toNat = some h ∧ m'.doomedHeads = h :: m.doomedHeads
  | .queue head index =>
    (∀ m', menIoctlQueueBuffer m head index = .marked m' →
      ∃ h b, m.NamesBuf head.toNat index.toInt h b ∧ m' = m.setListname (.sb b) .ready) ∧
    ∀ c b, menIoctlQueueBuffer m head index = .active c b → ∃ h, m.NamesBuf head.toNat index.toInt h b
  | .unlock headnr index =>
    let unlocked := menIoctlUnlockBuffer m headnr.toNat index.long.toInt
    unlocked ≠ .error .outOfBounds ∧ ∀ m', unlocked = .ok (m', none) →
      ∃ h, meGetBufHead m headnr.toNat = some h ∧
        match (m.head h).chan with
        | none => m' = m
        | some c =>
          index.number = -1 ∧ unblockAll m c (m.head h).bufs = .ok m' ∨
            ∃ b, m.NamesBuf headnr.toNat index.number h b ∧ menUnblockBuffer m c (some (.sb b)) = .ok m'
  | .status head index =>
    let reply := menIoctlGetBufferStatus m head.toNat index.toInt
    reply ≠ .error .outOfBounds ∧ ∀ st, reply = .ok (.ok st) →
      index.toInt = -1 ∧ st.isLocked = false ∨
        ∃ h b, m.NamesBuf head.toNat index.toInt h b ∧ st.isLocked = listLocked (m.buf (.sb b)).listname

/-- The requests whose numbers the driver gets wrong: a negative number passes the test of
the add request, its second section does not test the head it finds, `num_sb` itself passes
the test of the delete request, and the free and queue requests drop the upper half. -/
def Misread (m : Men) : BufIoctl → Prop
  | .add start length subnr headnr =>
    length.toNat ≠ 0 ∧ length.toNat ≤ 16 * 1024 * 1024 * 1024 ∧ start.toNat % 4 = 0 ∧
      (∃ h, meGetBufHead m headnr.toNat = some h) ∧ subnr.number < 0
  | .store _ _ subnr headnr _ =>
    ∃ h, meGetBufHead m headnr.toNat = some h ∧
      (subnr.number < 0 ∨ (m.head h).bufs.length ≤ subnr.number)
  | .del headnr index =>
    ∃ h, meGetBufHead m headnr.toNat = some h ∧ index.number = (m.head h).bufs.length
  | .free arg =>
    2 ^ 32 ≤ arg.toNat ∧ ∃ h, meGetBufHead m (arg.toNat % 2 ^ 32) = some h ∧
      ∀ c, (m.head h).chan = some c → (m.chan c).state ≠ .started
  | .queue head index =>
    2 ^ 32 ≤ index.toNat ∧ ∃ h b, m.NamesBuf head.toNat (index.toNat % 2 ^ 32 : Nat) h b ∧
      AcceptsQueueing m h
  | .unlock .. | .status .. => False

variable {m m' : Men}

section Add
variable {r : IoRange} {b : SbRef}

theorem menIoctlAddVirtUserBuffer_ok (hc : menIoctlAddVirtUserBuffer m r = .ok none) :
    ∃ h, m.Names r.headnr r.subnr h := by
  unfold menIoctlAddVirtUserBuffer menCreateUserbufCheck at hc
  cases hh : meGetBufHead m r.headnr with
  | none =>
    rw [hh] at hc
    split_ifs at hc <;> cases hc
  | some h =>
    simp only [hh] at hc
    split_ifs at hc with h1 h2 h3 h4 h5 h6
    any_goals cases hc
    exact ⟨h, hh, by omega, by omega⟩

theorem menIoctlAddVirtUserBuffer_outOfBounds :
    menIoctlAddVirtUserBuffer m r = .error .outOfBounds ↔
      r.length ≠ 0 ∧ r.length ≤ 16 * 1024 * 1024 * 1024 ∧ r.start % 4 = 0 ∧
        (∃ h, meGetBufHead m r.headnr = some h) ∧ r.subnr < 0 := by
  unfold menIoctlAddVirtUserBuffer menCreateUserbufCheck
  cases hh : meGetBufHead m r.headnr with
  | none =>
    split_ifs <;> simp
  | some h =>
    have hlen : (0 : Int) ≤ (m.head h).bufs.length := Int.natCast_nonneg _
    simp only [Option.some.injEq, exists_eq', true_and]
    split_ifs with h1 h2 h3 h4 h5 h6
    · exact iff_of_false (by simp) (by omega)
    · exact iff_of_false (by simp) (by omega)
    · exact iff_of_false (by simp) (by omega)
    · exact iff_of_false (by simp) (by omega)
    · exact iff_of_true rfl (by omega)
    · exact iff_of_false (by simp) (by omega)
    · exact iff_of_false (by simp) (by omega)

theorem menCreateUserbufStore_outOfBounds :
    menCreateUserbufStore m r b = .error .outOfBounds ↔
      ∃ h, meGetBufHead m r.headnr = some h ∧ (r.subnr < 0 ∨ (m.head h).bufs.length ≤ r.subnr) := by
  unfold menCreateUserbufStore
  cases hh : meGetBufHead m r.headnr with
  | none => simp
  | some h =>
    dsimp only
    split_ifs with hi
    · simp [hi]
    · cases (m.head h).chan <;> simp [hi]

theorem menCreateUserbufStore_slot (hc : menCreateUserbufStore m r b = .ok (m', none)) :
    ∃ h, m.Names r.headnr r.subnr h ∧ (m'.head h).bufs = (m.head h).bufs.set r.subnr.toNat (some b) := by
  rcases menCreateUserbufStore_cases hc with ⟨_, hne, _⟩ | ⟨h, _, hh, h0, hlt, ⟨_, rfl⟩ | ⟨c, _, rfl⟩⟩
  · exact absurd rfl hne
  · exact ⟨h, ⟨hh, h0, hlt⟩, by simp [putUserbuf, Men.setSlot]⟩
  · exact ⟨h, ⟨hh, h0, hlt⟩, by simp [addToFree, putUserbuf, Men.setSlot]⟩

end Add

section Del
variable {headnr : Nat} {index : Int}

theorem menFreeUserbuf_outOfBounds {h : HeadRef} :
    menFreeUserbuf m h index = .error .outOfBounds ↔ index = (m.head h).bufs.length := by
  unfold menFreeUserbuf
  split_ifs with hi
  · simp
    omega
  · cases hslot : (m.head h).bufs[index.toNat]? with
    | none =>
      have hlen := List.getElem?_eq_none_iff.mp hslot
      simp
      omega
    | some slot =>
      obtain ⟨hlt, _⟩ := List.getElem?_eq_some_iff.mp hslot
      refine iff_of_false ?_ (by omega)
      cases slot with
      | none => simp
      | some b =>
        dsimp only
        cases (m.head h).chan with
        | none => simp
        | some c =>
          dsimp only
          split_ifs
          · simp
          · intro hc
            rcases bind_error.mp hc with hc | ⟨_, _, hc⟩
            · cases dropFromChannel_error hc
            · cases hc

theorem menIoctlDelVirtUserBuffer_outOfBounds :
    menIoctlDelVirtUserBuffer m headnr index = .error .outOfBounds ↔
      ∃ h, meGetBufHead m headnr = some h ∧ index = (m.head h).bufs.length := by
  unfold menIoctlDelVirtUserBuffer
  cases hh : meGetBufHead m headnr with
  | none => simp
  | some h =>
    simp only [Option.some.injEq, exists_eq_left', ← menFreeUserbuf_outOfBounds]
    constructor
    · intro hc
      rcases bind_error.mp hc with hc | ⟨⟨_, ret⟩, _, hc⟩
      · exact hc
      · cases ret <;> cases hc
    · exact fun hc => bind_error.mpr (.inl hc)

theorem menIoctlDelVirtUserBuffer_slot (hc : menIoctlDelVirtUserBuffer m headnr index = .ok (m', none)) :
    ∃ h b, m.NamesBuf headnr index h b ∧ m'.doomed = b :: m.doomed ∧
      (m'.head h).bufs = (m.head h).bufs.set index.toNat none := by
  unfold menIoctlDelVirtUserBuffer at hc
  split at hc
  · cases hc
  · rename_i h hh
    obtain ⟨⟨m₁, ret⟩, h₁, hc⟩ := bind_ok.mp hc
    cases ret with
    | some e => cases hc
    | none =>
      cases hc
      rcases menFreeUserbuf_cases h₁ with ⟨_, hne⟩ | ⟨b, _, h0, hlt, hb, hfree⟩
      · exact absurd rfl hne
      · have hsub : meGetSubBufByHead m h index = some b := meGetSubBufByHead_some.mpr ⟨h0, hb⟩
        rw [hsub]
        refine ⟨h, b, ⟨⟨hh, h0, hlt⟩, hb⟩, ?_⟩
        rcases hfree with ⟨_, rfl⟩ | ⟨c, m₂, _, _, h₂, rfl⟩
        · exact ⟨rfl, by simp [Men.setSlot]⟩
        · rcases dropFromChannel_cases h₂ with ⟨_, rfl⟩ | ⟨_, _, rfl⟩
          · exact ⟨rfl, by simp [Men.setSlot]⟩
          · exact ⟨rfl, by simp [Men.setSlot]⟩

end Del

section Unlock
variable {headnr : Nat} {index : Int}

theorem menIoctlUnlockBuffer_ne_outOfBounds :
    menIoctlUnlockBuffer m headnr index ≠ .error .outOfBounds := by
  intro hc
  unfold menIoctlUnlockBuffer at hc
  cases hh : meGetBufHead m headnr with
  | none =>
    rw [hh] at hc
    split_ifs at hc
  | some h =>
    cases hl : (m.head h).chan with
    | none =>
      simp only [hh, hl] at hc
      split_ifs at hc
    | some c =>
      simp only [hh, hl] at hc
      split_ifs at hc with h1 h2 h3
      · rcases bind_error.mp hc with hc | ⟨m₁, _, hc⟩
        · cases unblockAll_error hc
        · split_ifs at hc
          cases hc
      · split at hc
        · rename_i hslot
          have hlen := List.getElem?_eq_none_iff.mp hslot
          omega
        · cases hc
        · rcases bind_error.mp hc with hc | ⟨m₁, _, hc⟩
          · cases menUnblockBuffer_error hc
          · cases hc

theorem menIoctlUnlockBuffer_slot (hc : menIoctlUnlockBuffer m headnr index = .ok (m', none)) :
    ∃ h, meGetBufHead m headnr = some h ∧
      match (m.head h).chan with
      | none => m' = m
      | some c => index = -1 ∧ unblockAll m c (m.head h).bufs = .ok m' ∨
          ∃ b, m.NamesBuf headnr index h b ∧ menUnblockBuffer m c (some (.sb b)) = .ok m' := by
  unfold menIoctlUnlockBuffer at hc
  cases hh : meGetBufHead m headnr with
  | none =>
    rw [hh] at hc
    split_ifs at hc <;> cases hc
  | some h =>
    refine ⟨h, rfl, ?_⟩
    cases hl : (m.head h).chan with
    | none =>
      simp only [hh, hl] at hc
      split_ifs at hc <;> cases hc
      rfl
    | some c =>
      simp only [hh, hl] at hc
      split_ifs at hc with h1 h2 h3
      · cases hc
      · cases hc
      · obtain ⟨m₁, h₁, hc⟩ := bind_ok.mp hc
        split_ifs at hc
        cases hc
        exact .inl ⟨h3, h₁⟩
      · split at hc
        · cases hc
        · cases hc
        · rename_i b hb
          obtain ⟨m₁, h₁, hc⟩ := bind_ok.mp hc
          cases hc
          exact .inr ⟨b, ⟨⟨hh, by omega, by omega⟩, hb⟩, h₁⟩

end Unlock

section Status
variable {head : Nat} {index : Int}

theorem menIoctlGetBufferStatus_ne_outOfBounds :
    menIoctlGetBufferStatus m head index ≠ .error .outOfBounds := by
  intro hc
  unfold menIoctlGetBufferStatus at hc
  split at hc
  · cases hc
  · split_ifs at hc with h1 h2
    split at hc
    · rename_i hslot
      have hlen := List.getElem?_eq_none_iff.mp hslot
      omega
    · cases hc
    · cases hc

theorem channelStatus_isLocked {h : HeadRef} {locked : Bool} {st : BufStatus}
    (hc : channelStatus m h locked = .ok st) : st.isLocked = locked := by
  unfold channelStatus at hc
  split at hc
  · cases hc
  · cases hc
    rfl

theorem menIoctlGetBufferStatus_slot {st : BufStatus} (hc : menIoctlGetBufferStatus m head index = .ok (.ok st)) :
    index = -1 ∧ st.isLocked = false ∨
      ∃ h b, m.NamesBuf head index h b ∧ st.isLocked = listLocked (m.buf (.sb b)).listname := by
  unfold menIoctlGetBufferStatus at hc
  split at hc
  · cases hc
  · rename_i h hh
    split_ifs at hc with h1 h2
    · cases hc
    · exact .inl ⟨h2, channelStatus_isLocked (Except.ok.inj hc)⟩
    · split at hc
      · cases hc
      · cases hc
      · rename_i b hb
        exact .inr ⟨h, b, ⟨⟨hh, by omega, by omega⟩, hb⟩, channelStatus_isLocked (Except.ok.inj hc)⟩

end Status

section Queue
variable {headIdx bufIdx : Nat}

theorem queueRequest_names {h : HeadRef} {b : SbRef} :
    queueRequest m headIdx bufIdx = some (h, b) ↔ m.NamesBuf headIdx bufIdx h b := by
  rw [queueRequest_some]
  constructor
  · rintro ⟨hh, hb⟩
    have hlt := (List.getElem?_eq_some_iff.mp hb).1
    exact ⟨⟨hh, by omega, by omega⟩, hb⟩
  · exact fun hn => ⟨hn.head, hn.buf⟩

theorem menQueueBufferCheck_accepts {h : HeadRef} {b : SbRef} (hn : m.NamesBuf headIdx bufIdx h b)
    (hq : AcceptsQueueing m h) :
    (∃ m', menQueueBufferCheck m headIdx bufIdx = .marked m') ∨
      ∃ c b, menQueueBufferCheck m headIdx bufIdx = .active c b := by
  unfold menQueueBufferCheck
  rw [queueRequest_names.mpr hn]
  cases hl : (m.head h).chan with
  | none => exact .inl ⟨_, by simp only [hl]; rfl⟩
  | some c =>
    simp only [hl]
    split_ifs with hs hm
    · exact .inl ⟨_, rfl⟩
    · rcases hq c hl with h1 | h1 | h1
      · exact absurd (.inl h1) hs
      · exact absurd (.inr h1) hs
      · exact absurd h1 hm
    · exact .inr ⟨c, b, rfl⟩

end Queue

section Free
variable {num : Nat}

theorem meGetBufHead_id {h : HeadRef} (hh : meGetBufHead m num = some h) : (m.head h).id = num := by
  simpa using List.find?_some hh

/-- A release that does something takes the head with the number it is given. -/
theorem menIoctlFreeVirtBuffer_head (hc : menIoctlFreeVirtBuffer m num = (m', none)) :
    m' = m ∨ ∃ h, meGetBufHead m num = some h ∧ m'.doomedHeads = h :: m.doomedHeads := by
  rcases menIoctlFreeVirtBuffer_cases hc with rfl | ⟨h, m₁, hh, h₁, rfl⟩
  · exact .inl rfl
  · rcases menReleaseBufHead_cases h₁ with ⟨_, hne⟩ | ⟨_, ⟨_, rfl⟩ | ⟨_, _, _, rfl⟩⟩
    · exact absurd rfl hne
    · exact .inr ⟨h, hh, rfl⟩
    · exact .inr ⟨h, hh, rfl⟩

theorem menIoctlFreeVirtBuffer_releases {h : HeadRef} (hh : meGetBufHead m num = some h)
    (hidle : ∀ c, (m.head h).chan = some c → (m.chan c).state ≠ .started) :
    ∃ m', menIoctlFreeVirtBuffer m num = (m', none) ∧ m'.doomedHeads = h :: m.doomedHeads := by
  unfold menIoctlFreeVirtBuffer menReleaseBufHead
  rw [hh]
  cases hl : (m.head h).chan with
  | none => exact ⟨_, by simp only [hl]; rfl, rfl⟩
  | some c => exact ⟨_, by simp only [hl, hidle c hl, if_false]; rfl, rfl⟩

end Free

theorem indexSafe_add (start length : BitVec 64) (subnr : UserIndex) (headnr : BitVec 32) :
    IndexSafe m (.add start length subnr headnr) ↔ ¬ Misread m (.add start length subnr headnr) := by
  have hout := menIoctlAddVirtUserBuffer_outOfBounds (m := m) (r := ioRange start length subnr headnr)
  have hok := menIoctlAddVirtUserBuffer_ok (m := m) (r := ioRange start length subnr headnr)
  simp only [ioRange, UserIndex.long_toInt] at hout hok
  simp only [IndexSafe, Misread, ioRange, UserIndex.long_toInt, ne_eq, hout]
  exact and_iff_left hok

theorem indexSafe_store (start length : BitVec 64) (subnr : UserIndex) (headnr : BitVec 32) (b : SbRef) :
    IndexSafe m (.store start length subnr headnr b) ↔ ¬ Misread m (.store start length subnr headnr b) := by
  have hout := menCreateUserbufStore_outOfBounds (m := m) (r := ioRange start length subnr headnr) (b := b)
  have hok : ∀ m', menCreateUserbufStore m (ioRange start length subnr headnr) b = .ok (m', none) → _ :=
    fun _ => menCreateUserbufStore_slot
  simp only [ioRange, UserIndex.long_toInt] at hout hok
  simp only [IndexSafe, Misread, ioRange, UserIndex.long_toInt, ne_eq, hout]
  exact and_iff_left hok

theorem indexSafe_del (headnr : BitVec 32) (index : UserIndex) :
    IndexSafe m (.del headnr index) ↔ ¬ Misread m (.del headnr index) := by
  simp only [IndexSafe, Misread, UserIndex.long_toInt, ne_eq, menIoctlDelVirtUserBuffer_outOfBounds]
  exact and_iff_left fun m' => menIoctlDelVirtUserBuffer_slot

theorem indexSafe_free (arg : BitVec 64) : IndexSafe m (.free arg) ↔ ¬ Misread m (.free arg) := by
  simp only [IndexSafe, Misread, BitVec.toNat_setWidth]
  by_cases hlt : arg.toNat < 2 ^ 32
  · rw [Nat.mod_eq_of_lt hlt]
    exact iff_of_true (fun m' => menIoctlFreeVirtBuffer_head) fun hm => absurd hm.1 (by omega)
  · have hle : 2 ^ 32 ≤ arg.toNat := by omega
    constructor
    · rintro hsafe ⟨_, h, hh, hidle⟩
      obtain ⟨m', hm', hdoomed⟩ := menIoctlFreeVirtBuffer_releases hh hidle
      rcases hsafe m' hm' with rfl | ⟨h', hh', hdoomed'⟩
      · exact List.cons_ne_self _ _ hdoomed.symm
      · rw [hdoomed] at hdoomed'
        obtain rfl : h = h' := (List.cons.inj hdoomed').1
        have hid := (meGetBufHead_id hh).symm.trans (meGetBufHead_id hh')
        omega
    · intro hread m' hm'
      rcases menIoctlFreeVirtBuffer_head hm' with rfl | ⟨h, hh, hdoomed⟩
      · exact .inl rfl
      · refine absurd ⟨hle, h, hh, fun c hl hst => ?_⟩ hread
        simp [menIoctlFreeVirtBuffer, menReleaseBufHead, hh, hl, hst] at hm'

theorem indexSafe_queue (head : BitVec 32) (index : BitVec 64) :
    IndexSafe m (.queue head index) ↔ ¬ Misread m (.queue head index) := by
  have hmarked : ∀ m', menIoctlQueueBuffer m head index = .marked m' →
      ∃ h b, m.NamesBuf head.toNat (index.toNat % 2 ^ 32 : Nat) h b ∧ AcceptsQueueing m h ∧
        m' = m.setListname (.sb b) .ready := fun m' hq => by
    obtain ⟨h, b, hn, hidle, rfl⟩ := menQueueBufferCheck_marked hq
    rw [BitVec.toNat_setWidth, queueRequest_names] at hn
    refine ⟨h, b, hn, fun c hl => ?_, rfl⟩
    rcases hidle with hnone | ⟨c', hl', hst⟩
    · rw [hl] at hnone
      cases hnone
    · obtain rfl : c = c' := Option.some.inj (hl.symm.trans hl')
      exact hst.imp_right .inl
  have hactive : ∀ c b, menIoctlQueueBuffer m head index = .active c b →
      ∃ h, m.NamesBuf head.toNat (index.toNat % 2 ^ 32 : Nat) h b ∧ AcceptsQueueing m h := fun c b hq => by
    obtain ⟨h, hn, hl, _, _, hmode⟩ := menQueueBufferCheck_active hq
    rw [BitVec.toNat_setWidth, queueRequest_names] at hn
    refine ⟨h, hn, fun c' hl' => ?_⟩
    obtain rfl : c = c' := Option.some.inj (hl.symm.trans hl')
    exact .inr (.inr hmode)
  simp only [IndexSafe, Misread]
  by_cases hlt : index.toNat < 2 ^ 32
  · have hint : index.toInt = (index.toNat % 2 ^ 32 : Nat) := by
      rw [Nat.mod_eq_of_lt hlt, BitVec.toInt_eq_toNat_of_lt (by omega)]
    refine iff_of_true ⟨fun m' hq => ?_, fun c b hq => ?_⟩ fun hm => absurd hm.1 (by omega)
    · obtain ⟨h, b, hn, _, hm⟩ := hmarked m' hq
      exact ⟨h, b, hint ▸ hn, hm⟩
    · obtain ⟨h, hn, _⟩ := hactive c b hq
      exact ⟨h, hint ▸ hn⟩
  · have hle : 2 ^ 32 ≤ index.toNat := by omega
    -- a number outside the 32 bits names no slot: `bufs` is shorter
    have hnone : ∀ h b, ¬ m.NamesBuf head.toNat index.toInt h b := fun h b hn => by
      have hlen := (m.head h).numSb_lt
      have h0 := hn.nonneg
      have hlt' := hn.inside
      unfold kcallocLimit at hlen
      rw [BitVec.toInt_eq_toNat_cond] at h0 hlt'
      split_ifs at h0 hlt' <;> omega
    constructor
    · rintro ⟨hsafe, hsafe'⟩ ⟨_, h, b, hn, hidle⟩
      rw [← BitVec.toNat_setWidth] at hn
      rcases menQueueBufferCheck_accepts hn hidle with ⟨m', hq⟩ | ⟨c, b', hq⟩
      · obtain ⟨h', b', hn', _⟩ := hsafe m' hq
        exact hnone h' b' hn'
      · obtain ⟨h', hn'⟩ := hsafe' c b' hq
        exact hnone h' b' hn'
    · refine fun hread => ⟨fun m' hq => ?_, fun c b hq => ?_⟩
      · obtain ⟨h, b, hn, hidle, _⟩ := hmarked m' hq
        exact absurd ⟨hle, h, b, hn, hidle⟩ hread
      · obtain ⟨h, hn, hidle⟩ := hactive c b hq
        exact absurd ⟨hle, h, b, hn, hidle⟩ hread

theorem indices_safe_iff (m : Men) (q : BufIoctl) : IndexSafe m q ↔ ¬ Misread m q := by
  cases q with
  | add start length subnr headnr => exact indexSafe_add start length subnr headnr
  | store start length subnr headnr b => exact indexSafe_store start length subnr headnr b
  | del headnr index => exact indexSafe_del headnr index
  | free arg => exact indexSafe_free arg
  | queue head index => exact indexSafe_queue head index
  | unlock headnr index =>
    refine iff_of_true ⟨menIoctlUnlockBuffer_ne_outOfBounds, fun m' hc => ?_⟩ id
    simpa only [UserIndex.long_toInt] using menIoctlUnlockBuffer_slot hc
  | status head index =>
    exact iff_of_true ⟨menIoctlGetBufferStatus_ne_outOfBounds, fun st => menIoctlGetBufferStatus_slot⟩ id

/-- A head with one slot: the delete request for the slot 1 reads behind the end of `bufs`. -/
theorem index_unsafe : ∃ s, run step (sysProbe 1 [1] (fun _ => 0) 8) [.run (.createHead 1 (some 0))] = .ok s ∧
    ¬ IndexSafe s.men (.del 0#32 (.native 1#64)) := by
  obtain ⟨s, hs, hp⟩ := exists_of_check step (sysProbe 1 [1] (fun _ => 0) 8) [.run (.createHead 1 (some 0))]
    (fun s => decide (meGetBufHead s.men 0 = some 0 ∧ (s.men.head 0).bufs.length = 1)) (by decide +kernel)
  obtain ⟨hh, hlen⟩ := of_decide_eq_true hp
  refine ⟨s, hs, fun hsafe => (indexSafe_del _ _).mp hsafe ⟨0, hh, ?_⟩⟩
  rw [hlen]
  rfl

end MenableDriver
