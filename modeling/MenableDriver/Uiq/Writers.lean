import MenableDriver.Uiq.Readers

/-!
# Writers that wait

A writer that finds too little room in a write queue writes the number of its words to
`cpltodo` and sleeps on the completion of the queue. Room is made by a burst to the device,
by a reset and by a larger buffer.
-/

namespace MenableDriver

set_option autoImplicit false

open Transition (ofOption ofOption_ok run Meets Always always_iff_meets meets_of_check exists_of_check)

/-- What a user hands to `uiq_write`. -/
structure WriteRequest where
  bufferSize : Nat := 0
  buf : Nat → Word := fun _ => 0

namespace WriteRequest

def numWords (r : WriteRequest) : Nat := wordsRequested r.bufferSize

def words (r : WriteRequest) : List Word := (List.range r.numWords).map r.buf

end WriteRequest

/-- The end of `uiq_write`, when there is room. -/
def uiqWritePush (u : MenableUiq) (words : List Word) : Option MenableUiq := do
  let (q, _) ← pushBack u.base words
  let u := { u with base := q }
  if u.base.isRunning then some u
  else do
    let (u, _) ← menUiqPush u
    some { u with base := { u.base with isRunning := true } }

/-- `uiq_irq` on a write queue. -/
def uiqIrqWrite (u : MenableUiq) : Option MenableUiq :=
  if u.base.fill = 0 then some { u with base := { u.base with isRunning := false, readIndex := 0 } }
  else do
    let (u, _) ← menUiqPush u
    some u

/-- A write queue, the writer that sleeps on it with its request, whether the queue was
cleared since it began to wait, and what the calls have returned. -/
structure WriteSys where
  uiq : MenableUiq
  writer : Option Sleeper := none
  request : WriteRequest := {}
  cleared : Bool := false
  answers : List (Except Errno Nat) := []

inductive WriteEvent where
  | write (r : WriteRequest)
  | wake
  | timeOut
  | resume (fatal : Bool)
  | irq
  | scale (len : UInt32) (newBuffer : Option (Nat → Word))
  | reset

def writerStep (s : WriteSys) : WriteEvent → Option WriteSys
  | .write r =>
    if r.bufferSize = 0 then some { s with answers := .ok 0 :: s.answers }
    else if r.bufferSize % 4 ≠ 0 then some { s with answers := .error .EINVAL :: s.answers }
    else if s.uiq.base.capacity = 0 ∨ s.uiq.base.capacity < r.numWords then
      some { s with answers := .error .ENOSPC :: s.answers }
    else if s.uiq.cpltodo ≠ 0 then some { s with answers := .error .EBUSY :: s.answers }
    else if Counter.sub s.uiq.base.capacity s.uiq.base.fill < r.numWords then
      some { s with
        uiq := { s.uiq with cpltodo := r.numWords }
        writer := some (.waiting r.numWords)
        request := r
        cleared := false }
    else do
      let u ← uiqWritePush s.uiq r.words
      some { s with uiq := u, answers := .ok r.bufferSize :: s.answers }
  | .wake =>
    match s.writer with
    | some (.waiting n) =>
      if 0 < s.uiq.cpl then
        some { s with uiq := { s.uiq with cpl := s.uiq.cpl - 1 }, writer := some (.woken n true) }
      else none
    | _ => none
  | .timeOut =>
    match s.writer with
    | some (.waiting n) => some { s with writer := some (.woken n false) }
    | _ => none
  | .resume fatal =>
    match s.writer with
    | some (.woken n completed) =>
      let idle := { s.uiq with cpltodo := 0 }
      -- the words of the request count as written and cleared
      if s.uiq.cpltodo = cpltodoCleared then
        some { s with uiq := idle, writer := none, answers := .ok s.request.bufferSize :: s.answers }
      else if n ≤ Counter.sub s.uiq.base.capacity s.uiq.base.fill then do
        let u ← uiqWritePush idle s.request.words
        some { s with uiq := u, writer := none, answers := .ok s.request.bufferSize :: s.answers }
      else if completed ∧ ¬ fatal then some { s with writer := some (.waiting n) }
      else some { s with uiq := idle, writer := none, answers := .error .EBUSY :: s.answers }
    | _ => none
  | .irq => do
    let u ← uiqIrqWrite s.uiq
    some { s with uiq := u }
  | .scale len newBuffer => do
    let u ← menScaleUiqOf s.uiq len.toNat newBuffer
    some { s with uiq := u }
  | .reset => some { s with uiq := menUiqWritefill s.uiq, cleared := true }

/-- A writer for which there is room, or whose queue was cleared, has its completion pending. -/
def WriterWoken (s : WriteSys) : Prop :=
  ∀ n, s.writer = some (.waiting n) →
    n ≤ s.uiq.base.capacity - s.uiq.base.fill ∨ s.cleared = true → 0 < s.uiq.cpl

/-- The larger buffer has room for the writer that waits, and no completion is pending. -/
def GrowsPast (s : WriteSys) : WriteEvent → Prop
  | .scale len newBuffer => s.uiq.base.capacity ≠ len.toNat / 4 ∧ newBuffer.isSome = true ∧ s.uiq.cpl = 0 ∧
      ∃ n, s.writer = some (.waiting n) ∧ n ≤ len.toNat / 4 - min s.uiq.base.fill (len.toNat / 4)
  | _ => False

section Sections
variable {u u' : MenableUiq}

/-- A section that makes room keeps the threshold and completes a writer whose room there is. -/
structure Frees (u u' : MenableUiq) : Prop where
  ok : u'.base.Ok
  cpltodo : u'.cpltodo = u.cpltodo
  cpl : u.cpl ≤ u'.cpl
  reached : u.cpltodo ≠ 0 → u.cpltodo ≤ u'.base.capacity - u'.base.fill →
    0 < u'.cpl ∨ u'.base.capacity - u'.base.fill = u.base.capacity - u.base.fill

theorem menUiqPush_frees {empty : Bool} (hu : u.base.Ok) (h : menUiqPush u = some (u', empty)) :
    Frees u u' := by
  by_cases hcap : u.base.capacity = 0
  · rw [menUiqPush, if_pos hcap] at h
    cases h
  · obtain ⟨u₁, empty₁, h₁, hok, _⟩ := menUiqPush_ok hu hcap
    obtain rfl : u₁ = u' := by
      rw [h] at h₁
      cases h₁
      rfl
    have hroom : Counter.sub u₁.base.capacity u₁.base.fill = u₁.base.capacity - u₁.base.fill :=
      getFreeCapacity_eq hok
    rw [menUiqPush, if_neg hcap] at h
    cases h
    refine ⟨hok, rfl, ?_, fun hne hle => .inl ?_⟩
    · dsimp only
      split_ifs <;> omega
    · dsimp only at hroom hle ⊢
      rw [if_pos ⟨hne, hroom ▸ hle⟩]
      omega

theorem uiqIrqWrite_frees (hu : u.base.Ok) (h : uiqIrqWrite u = some u') : Frees u u' := by
  unfold uiqIrqWrite at h
  split_ifs at h
  · cases h
    exact ⟨⟨hu.capacity, hu.fill, .inr rfl⟩, rfl, Nat.le_refl _, fun _ _ => .inr rfl⟩
  · obtain ⟨⟨u₁, empty⟩, h₁, h⟩ := Option.bind_eq_some_iff.mp h
    cases h
    exact menUiqPush_frees hu h₁

theorem uiqWritePush_ok {words : List Word} (hu : u.base.Ok) (h : uiqWritePush u words = some u') :
    u'.base.Ok := by
  obtain ⟨⟨q, n⟩, h₁, h⟩ := Option.bind_eq_some_iff.mp h
  rw [pushBack_eq hu] at h₁
  cases h₁
  have hq := pushed_ok hu words rfl
  dsimp only at h
  split_ifs at h
  · cases h
    exact hq
  · obtain ⟨⟨u₁, empty⟩, h₁, h⟩ := Option.bind_eq_some_iff.mp h
    cases h
    have hok := (menUiqPush_frees hq h₁).ok
    exact ⟨hok.capacity, hok.fill, hok.readIndex⟩

theorem menScaleUiqOf_ok {len : UInt32} {newBuffer : Option (Nat → Word)} (hu : u.base.Ok)
    (h : menScaleUiqOf u len.toNat newBuffer = some u') : u'.base.Ok := by
  obtain ⟨q, h₁, h⟩ := Option.bind_eq_some_iff.mp h
  cases h
  unfold menScaleUiq at h₁
  split_ifs at h₁
  · cases h₁
    exact hu
  · cases newBuffer with
    | none =>
      cases h₁
      exact hu
    | some newBuffer =>
      obtain ⟨buffer, he, _⟩ := replaceBuffer_eq hu newBuffer (len.toNat / 4)
      dsimp only at h₁
      rw [he] at h₁
      cases h₁
      have hlen := len.toNat_lt
      exact ⟨by dsimp only; omega, Nat.min_le_right .., .inr rfl⟩

/-- With a new buffer of another size the queue has what fits of its words. -/
theorem menScaleUiqOf_resized {len : Nat} {newBuffer : Option (Nat → Word)}
    (h : menScaleUiqOf u len newBuffer = some u') (hcap : u.base.capacity ≠ len / 4)
    (hnew : newBuffer.isSome = true) :
    u'.base.fill = min u.base.fill (len / 4) ∧ u'.base.capacity = len / 4 := by
  obtain ⟨q, h₁, h⟩ := Option.bind_eq_some_iff.mp h
  cases h
  obtain ⟨buffer, rfl⟩ := Option.isSome_iff_exists.mp hnew
  rw [menScaleUiq, if_neg hcap] at h₁
  exact replaceBuffer_fill h₁

end Sections

/-- The number of words that a sleeper asks for. -/
def Sleeper.words : Sleeper → Nat
  | .waiting n => n
  | .woken n _ => n

/-- The threshold of a writer is its number of words, or the mark of a cleared queue. -/
structure WriterArmed (s : WriteSys) : Prop where
  ok : s.uiq.base.Ok
  asleep : ∀ r, s.writer = some r → 0 < r.words ∧ r.words < 2 ^ 30 ∧
    s.uiq.cpltodo = if s.cleared then cpltodoCleared else r.words
  reached : WriterWoken s

section Steps
variable {s t : WriteSys} {e : WriteEvent}

theorem writerArmed_of_none (hok : s.uiq.base.Ok) (h : s.writer = none) : WriterArmed s where
  ok := hok
  asleep r hr := by
    rw [h] at hr
    cases hr
  reached n hn := by
    rw [h] at hn
    cases hn

theorem WriterArmed.cpltodo_ne (hs : WriterArmed s) {r : Sleeper} (hr : s.writer = some r) :
    s.uiq.cpltodo ≠ 0 := by
  obtain ⟨hpos, _, htodo⟩ := hs.asleep r hr
  rw [htodo]
  split_ifs
  · decide
  · omega

theorem WriterArmed.writer_none (hs : WriterArmed s) (h0 : s.uiq.cpltodo = 0) : s.writer = none := by
  cases hr : s.writer with
  | none => rfl
  | some r => exact absurd h0 (hs.cpltodo_ne hr)

/-- A writer whose queue was not cleared waits for its own number. -/
theorem WriterArmed.cpltodo_eq (hs : WriterArmed s) {r : Sleeper} (hr : s.writer = some r)
    (hc : s.uiq.cpltodo ≠ cpltodoCleared) : s.cleared = false ∧ s.uiq.cpltodo = r.words := by
  obtain ⟨_, _, htodo⟩ := hs.asleep r hr
  split_ifs at htodo with hcleared
  · exact absurd htodo hc
  · exact ⟨by simpa using hcleared, htodo⟩

theorem WriterArmed.freed (hs : WriterArmed s) {u : MenableUiq} (hf : Frees s.uiq u) :
    WriterArmed { s with uiq := u } where
  ok := hf.ok
  asleep r hr := by
    rw [hf.cpltodo]
    exact hs.asleep r hr
  reached n hn hroom := by
    have hcpl := hf.cpl
    dsimp only at hroom ⊢
    by_cases hc : s.cleared = true
    · have := hs.reached n hn (.inr hc)
      omega
    · have htodo := (hs.asleep _ hn).2.2
      rw [if_neg hc] at htodo
      have hle := hroom.resolve_right hc
      rcases hf.reached (hs.cpltodo_ne hn) (htodo ▸ hle) with hpos | hsame
      · exact hpos
      · have := hs.reached n hn (.inl (hsame ▸ hle))
        omega

theorem writerStep_scale {len : UInt32} {newBuffer : Option (Nat → Word)} (hs : WriterArmed s)
    (hG : ¬ GrowsPast s (.scale len newBuffer)) {u : MenableUiq}
    (h : menScaleUiqOf s.uiq len.toNat newBuffer = some u) : WriterArmed { s with uiq := u } := by
  obtain ⟨htodo, hcpl, hbase⟩ := menScaleUiqOf_kept h
  refine ⟨menScaleUiqOf_ok hs.ok h, fun r hr => ?_, fun n hn hroom => ?_⟩
  · rw [htodo]
    exact hs.asleep r hr
  · dsimp only at hroom ⊢
    rw [hcpl]
    rcases hroom with hroom | hc
    · rcases hbase with hbase | ⟨hfill, hcap⟩
      · rw [hbase] at hroom
        exact hs.reached n hn (.inl hroom)
      · rw [hfill, hcap] at hroom
        by_contra hno
        have hcpl0 : s.uiq.cpl = 0 := by omega
        by_cases hsize : s.uiq.base.capacity = len.toNat / 4
        · have hle := hs.ok.fill
          exact hno (hs.reached n hn (.inl (by omega)))
        · by_cases hnew : newBuffer.isSome = true
          · exact hG ⟨hsize, hnew, hcpl0, n, hn, hroom⟩
          · obtain rfl : newBuffer = none := by simpa using hnew
            rw [menScaleUiqOf, menScaleUiq, if_neg hsize] at h
            cases h
            exact hno (hs.reached n hn (.inl (by dsimp only at hfill hcap; omega)))
    · exact hs.reached n hn (.inr hc)

theorem writerStep_armed (hs : WriterArmed s) (hG : ¬ GrowsPast s e) (h : writerStep s e = some t) :
    WriterArmed t := by
  have hfree : Counter.sub s.uiq.base.capacity s.uiq.base.fill = s.uiq.base.capacity - s.uiq.base.fill :=
    getFreeCapacity_eq hs.ok
  have hcap := hs.ok.capacity
  cases e with
  | write r =>
    simp only [writerStep, hfree] at h
    split_ifs at h with hempty hodd hspace hbusy hfew
    · cases h
      exact ⟨hs.ok, hs.asleep, hs.reached⟩
    · cases h
      exact ⟨hs.ok, hs.asleep, hs.reached⟩
    · cases h
      exact ⟨hs.ok, hs.asleep, hs.reached⟩
    · cases h
      exact ⟨hs.ok, hs.asleep, hs.reached⟩
    · cases h
      refine ⟨hs.ok, fun r' hr => ?_, fun n hn hroom => ?_⟩
      · cases hr
        rw [not_or] at hspace
        exact ⟨by dsimp only [Sleeper.words]; omega, by dsimp only [Sleeper.words]; omega, rfl⟩
      · cases hn
        rcases hroom with hroom | hroom
        · dsimp only at hroom
          omega
        · cases hroom
    · obtain ⟨u, h₁, h⟩ := Option.bind_eq_some_iff.mp h
      cases h
      exact writerArmed_of_none (uiqWritePush_ok hs.ok h₁) (hs.writer_none (not_not.mp hbusy))
  | wake =>
    simp only [writerStep] at h
    split at h
    · rename_i n hn
      split_ifs at h
      cases h
      refine ⟨hs.ok, fun r hr => ?_, fun n' hn' => (by cases hn')⟩
      cases hr
      exact hs.asleep (.waiting n) hn
    · cases h
  | timeOut =>
    simp only [writerStep] at h
    split at h
    · rename_i n hn
      cases h
      refine ⟨hs.ok, fun r hr => ?_, fun n' hn' => (by cases hn')⟩
      cases hr
      exact hs.asleep (.waiting n) hn
    · cases h
  | resume fatal =>
    simp only [writerStep, hfree] at h
    split at h
    · rename_i n completed hn
      split_ifs at h with hcleared hroom hagain
      · cases h
        exact writerArmed_of_none hs.ok rfl
      · obtain ⟨u, h₁, h⟩ := Option.bind_eq_some_iff.mp h
        cases h
        exact writerArmed_of_none (uiqWritePush_ok (by exact hs.ok) h₁) rfl
      · cases h
        obtain ⟨hc, htodo⟩ := hs.cpltodo_eq hn hcleared
        refine ⟨hs.ok, fun r hr => ?_, fun n' hn' hroom' => ?_⟩
        · cases hr
          exact hs.asleep (.woken n completed) hn
        · cases hn'
          rcases hroom' with hroom' | hroom'
          · exact absurd hroom' hroom
          · exact absurd (hc ▸ hroom') (by decide)
      · cases h
        exact writerArmed_of_none hs.ok rfl
    · cases h
  | irq =>
    obtain ⟨u, h₁, h⟩ := Option.bind_eq_some_iff.mp h
    cases h
    exact hs.freed (uiqIrqWrite_frees hs.ok h₁)
  | scale len newBuffer =>
    obtain ⟨u, h₁, h⟩ := Option.bind_eq_some_iff.mp h
    cases h
    exact writerStep_scale hs hG h₁
  | reset =>
    cases h
    have hok : (reset s.uiq.base).Ok := ⟨hs.ok.capacity, Nat.zero_le _, .inr rfl⟩
    unfold menUiqWritefill
    dsimp only
    split_ifs with h0
    · exact ⟨hok, fun r hr => ⟨(hs.asleep r hr).1, (hs.asleep r hr).2.1, rfl⟩, fun n hn _ => Nat.succ_pos _⟩
    · exact writerArmed_of_none hok (hs.writer_none (not_not.mp h0))

theorem not_growsPast_of_woken (h : writerStep s e = some t) (ht : WriterWoken t) : ¬ GrowsPast s e := by
  intro hg
  cases e with
  | scale len newBuffer =>
    obtain ⟨hsize, hnew, hcpl0, n, hn, hroom⟩ := hg
    obtain ⟨u, h₁, h⟩ := Option.bind_eq_some_iff.mp h
    cases h
    obtain ⟨hfill, hcap⟩ := menScaleUiqOf_resized h₁ hsize hnew
    have hcpl := (menScaleUiqOf_kept h₁).2.1
    have := ht n hn (.inl (by dsimp only; rw [hfill, hcap]; exact hroom))
    dsimp only at this
    omega
  | _ => exact hg

/-- A write queue as it is created, with nobody asleep. -/
def emptyWriteQueue (buffer : Nat → Word) (capacity : Capacity) (id : Nat) (type : UiqType)
    (fpgaFifoDepth cpl : Nat) : WriteSys :=
  { uiq := { base := uiqBaseInit buffer capacity id type .raw fpgaFifoDepth, cpl := cpl } }

/-- Only a larger buffer loses a wake-up. -/
theorem writers_woken_iff (buffer : Nat → Word) (capacity : Capacity) (id : Nat) (type : UiqType)
    (fpgaFifoDepth cpl : Nat) (es : List WriteEvent) :
    Always (ofOption writerStep) WriterWoken (emptyWriteQueue buffer capacity id type fpgaFifoDepth cpl) es ↔
      Meets (ofOption writerStep) (fun s e => ¬ GrowsPast s e)
        (emptyWriteQueue buffer capacity id type fpgaFifoDepth cpl) es := by
  refine always_iff_meets (P := WriterArmed) (fun s hs => hs.reached) (fun s e t hs h => ?_)
    (writerArmed_of_none (uiqBaseInit_refines buffer capacity.2 id type .raw fpgaFifoDepth).ok rfl) es
  exact ⟨fun hG => writerStep_armed hs hG (ofOption_ok.mp h), not_growsPast_of_woken (ofOption_ok.mp h)⟩

end Steps

/-- A packet of the board for a write queue is the interrupt of the queue. -/
theorem writePacketDone_uiqIrqWrite {m m' : Messaging} {i : Nat} {u : MenableUiq} (hu : m.uiqs i = some u)
    (h : writePacketDone m i = some m') : ∃ u', uiqIrqWrite u = some u' ∧ m'.uiqs i = some u' := by
  simp only [writePacketDone, hu, Option.bind_eq_bind, Option.bind_some] at h
  unfold uiqIrqWrite
  split_ifs at h ⊢ with h0
  · cases h
    exact ⟨_, rfl, Messaging.setUiq_self ..⟩
  · obtain ⟨⟨u₁, empty⟩, h₁, h⟩ := Option.bind_eq_some_iff.mp h
    cases h
    rw [h₁]
    exact ⟨u₁, rfl, Messaging.setUiq_self ..⟩

section Example

/-- A writer waits for room for one word; the larger buffer has it, but nobody tells the writer. -/
def grownPast : List WriteEvent :=
  [.write { bufferSize := 4 }, .write { bufferSize := 4 }, .write { bufferSize := 4 },
    .scale 16 (some fun _ => 0)]

theorem writer_lost : ∃ t, run (ofOption writerStep)
    (emptyWriteQueue (fun _ => 0) ⟨1, by decide⟩ 7 .writeRaw 1 0)
    grownPast = .ok t ∧ ¬ WriterWoken t := by
  obtain ⟨t, ht, hp⟩ := exists_of_check (ofOption writerStep)
    (emptyWriteQueue (fun _ => 0) ⟨1, by decide⟩ 7 .writeRaw 1 0) grownPast
    (fun t => decide (t.writer = some (.waiting 1) ∧ t.uiq.base.capacity = 4 ∧ t.uiq.base.fill = 1 ∧ t.uiq.cpl = 0))
    (by decide +kernel)
  obtain ⟨hwriter, hcap, hfill, hcpl⟩ := of_decide_eq_true hp
  exact ⟨t, ht, fun hw => absurd (hw 1 hwriter (.inl (by omega))) (by omega)⟩

end Example

end MenableDriver
