import MenableDriver.Dma.State
import MenableDriver.Messaging.UiqData

/-!
# Readers that wait

A reader that asks for more words than a read queue holds writes their number to `cpltodo`
and sleeps on the completion of the queue; whoever delivers words completes it once the fill
level has reached `cpltodo`. Every section under the lock of the queue is an event.
-/

namespace MenableDriver

set_option autoImplicit false

open Transition (ofOption ofOption_ok run Meets Always always_of_meets meets_of_check exists_of_check)

/-- `cpltodo = -1`: the queue was cleared while somebody slept. -/
def cpltodoCleared : Nat := 4294967295

namespace MenableUiq

/-- `complete(&uiq->cpl)`, if a sleeper asks for no more than this. -/
def completeAt (u : MenableUiq) (level : Nat) : MenableUiq :=
  { u with cpl := if u.cpltodo ≠ 0 ∧ u.cpltodo ≤ level then u.cpl + 1 else u.cpl }

end MenableUiq

def menUiqWritefill (u : MenableUiq) : MenableUiq :=
  let u := { u with base := reset u.base }
  if u.cpltodo ≠ 0 then { u with cpltodo := cpltodoCleared, cpl := u.cpl + 1 } else u

def popInto (ts : UiqTimestamp) (u : MenableUiq) (w : Word) : Option MenableUiq := do
  let (q, _) ← menUiqPop u.base w ts
  some { u with base := q, delivered := u.delivered ++ [w] }

/-- What a visit of `process_uiq_data` does to a read queue. -/
def readVisit (u : MenableUiq) (words : List Word) (ts : UiqTimestamp) : Option MenableUiq := do
  let u ← words.foldlM (popInto ts) u
  let u := u.completeAt u.base.fill
  some { u with base := { u.base with irqCount := Counter.inc u.base.irqCount } }

/-- `men_uiq_pop_all` with the completion; a full queue is only drained. -/
def menUiqPopAllComplete (u : MenableUiq) (words : List Word) (ts : UiqTimestamp) : Option MenableUiq := do
  let (q, _, _) ← menUiqPopAll u.base words ts
  let u' := { u with base := q }
  some (if u.base.isFull then u' else u'.completeAt q.fill)

def menScaleUiqOf (u : MenableUiq) (len : Nat) (newBuffer : Option (Nat → Word)) : Option MenableUiq := do
  let q ← menScaleUiq u.base len newBuffer
  some { u with base := q }

/-- The end of `uiq_read`. -/
def uiqReadTake (u : MenableUiq) (n : Nat) : Option (MenableUiq × Except Errno (List Word)) :=
  if 0 < u.base.fill then do
    let (ws, q) ← popFront u.base n
    some ({ u with base := q }, .ok ws)
  else some (u, .error .ETIMEDOUT)

/-- The number of words of a request is an `unsigned int`. -/
def wordsRequested (bufferSize : Nat) : Nat := bufferSize / 4 % Counter.wrap

/-- A process in `wait_for_completion`, or back from it with or without the completion. -/
inductive Sleeper where
  | waiting (n : Nat)
  | woken (n : Nat) (completed : Bool)
deriving DecidableEq, Repr

/-- A read queue, the reader that has found too few words in it, and what the calls have
returned. -/
structure ReadSys where
  uiq : MenableUiq
  reader : Option Sleeper := none
  answers : List (Except Errno (List Word)) := []

/-- `timeOut` is a timeout or a signal, `fatal` says that a fatal signal is pending. -/
inductive ReadEvent where
  | read (bufferSize : Nat)
  | wake
  | timeOut
  | resume (fatal : Bool)
  | visit (words : List Word) (ts : UiqTimestamp)
  | popAll (words : List Word) (ts : UiqTimestamp)
  | scale (len : UInt32) (newBuffer : Option (Nat → Word))
  | reset

def readerStep (s : ReadSys) : ReadEvent → Option ReadSys
  | .read bufferSize =>
    let n := wordsRequested bufferSize
    if s.uiq.cpltodo ≠ 0 then some { s with answers := .error .EBUSY :: s.answers }
    else if s.uiq.base.fill < n then
      some { s with uiq := { s.uiq with cpltodo := n }, reader := some (.waiting n) }
    else do
      let (u, r) ← uiqReadTake s.uiq n
      some { s with uiq := u, answers := r :: s.answers }
  | .wake =>
    match s.reader with
    | some (.waiting n) =>
      if 0 < s.uiq.cpl then
        some { s with uiq := { s.uiq with cpl := s.uiq.cpl - 1 }, reader := some (.woken n true) }
      else none
    | _ => none
  | .timeOut =>
    match s.reader with
    | some (.waiting n) => some { s with reader := some (.woken n false) }
    | _ => none
  | .resume fatal =>
    match s.reader with
    | some (.woken n completed) =>
      if completed ∧ s.uiq.base.fill < n ∧ ¬ fatal then some { s with reader := some (.waiting n) }
      else do
        let (u, r) ← uiqReadTake { s.uiq with cpltodo := 0 } n
        some { uiq := u, reader := none, answers := r :: s.answers }
    | _ => none
  | .visit words ts => do
    let u ← readVisit s.uiq words ts
    some { s with uiq := u }
  | .popAll words ts => do
    let u ← menUiqPopAllComplete s.uiq words ts
    some { s with uiq := u }
  | .scale len newBuffer => do
    let u ← menScaleUiqOf s.uiq len.toNat newBuffer
    some { s with uiq := u }
  | .reset => some { s with uiq := menUiqWritefill s.uiq }

/-- A reader that waits for no more words than there are has its completion pending. -/
def ReaderWoken (s : ReadSys) : Prop :=
  ∀ n, s.reader = some (.waiting n) → n ≤ s.uiq.base.fill → 0 < s.uiq.cpl

/-- The reader goes back to sleep although the queue was cleared since it began to wait:
`cpltodo` does not hold its number any more. -/
def SleepsOn (s : ReadSys) : ReadEvent → Prop
  | .resume fatal => fatal = false ∧
      ∃ n, s.reader = some (.woken n true) ∧ s.uiq.base.fill < n ∧ s.uiq.cpltodo ≠ n
  | _ => False

/-- The threshold of a reader is its number of words, until the queue is cleared. -/
structure Armed (s : ReadSys) : Prop where
  waiting : ∀ n, s.reader = some (.waiting n) → s.uiq.cpltodo ≠ 0 ∧ (s.uiq.cpltodo = n ∨ 0 < s.uiq.cpl)
  woken : ∀ n completed, s.reader = some (.woken n completed) → s.uiq.cpltodo ≠ 0
  reached : ReaderWoken s

section Sections
variable {u u' : MenableUiq} {q q' : UiqBase} {words : List Word} {ts : UiqTimestamp}

theorem popInto_kept {w : Word} (h : popInto ts u w = some u') : u'.cpltodo = u.cpltodo ∧ u'.cpl = u.cpl := by
  obtain ⟨⟨q, more⟩, _, h⟩ := Option.bind_eq_some_iff.mp h
  cases h
  exact ⟨rfl, rfl⟩

theorem foldlM_popInto_kept (h : words.foldlM (popInto ts) u = some u') :
    u'.cpltodo = u.cpltodo ∧ u'.cpl = u.cpl := by
  induction words generalizing u with
  | nil =>
    cases h
    exact ⟨rfl, rfl⟩
  | cons w words ih =>
    rw [List.foldlM_cons] at h
    obtain ⟨u₁, h₁, h⟩ := Option.bind_eq_some_iff.mp h
    obtain ⟨htodo, hcpl⟩ := ih h
    obtain ⟨htodo₁, hcpl₁⟩ := popInto_kept h₁
    exact ⟨htodo.trans htodo₁, hcpl.trans hcpl₁⟩

/-- A section that delivers keeps the threshold and completes a reader whose number is reached. -/
structure Delivers (u u' : MenableUiq) : Prop where
  cpltodo : u'.cpltodo = u.cpltodo
  cpl : u.cpl ≤ u'.cpl
  reached : u.cpltodo ≠ 0 → u.cpltodo ≤ u'.base.fill → 0 < u'.cpl ∨ u'.base.fill = u.base.fill

theorem completeAt_delivers (u₀ u : MenableUiq) (htodo : u.cpltodo = u₀.cpltodo) (hcpl : u.cpl = u₀.cpl) :
    Delivers u₀ (u.completeAt u.base.fill) := by
  refine ⟨htodo, ?_, fun hne hle => .inl ?_⟩
  · simp only [MenableUiq.completeAt, hcpl]
    split_ifs <;> omega
  · simp only [MenableUiq.completeAt] at hle ⊢
    rw [if_pos ⟨by rw [htodo]; exact hne, by rw [htodo]; exact hle⟩]
    omega

theorem readVisit_delivers (h : readVisit u words ts = some u') : Delivers u u' := by
  obtain ⟨u₁, h₁, h⟩ := Option.bind_eq_some_iff.mp h
  cases h
  obtain ⟨htodo, hcpl⟩ := foldlM_popInto_kept h₁
  have hd := completeAt_delivers u u₁ htodo hcpl
  exact ⟨hd.cpltodo, hd.cpl, hd.reached⟩

theorem drainLoop_fill {rest : List Word} (h : drainLoop q words = some (q', rest)) : q'.fill = q.fill := by
  have hword : ∀ (q : UiqBase) (w : Word), (drainWord q w).fill = q.fill := fun q w => by
    unfold drainWord
    split <;> rfl
  induction words generalizing q with
  | nil => cases h
  | cons w words ih =>
    simp only [drainLoop] at h
    split at h
    · exact (ih h).trans (hword q w)
    · cases h
      exact hword q w

theorem menUiqPopAllComplete_delivers (h : menUiqPopAllComplete u words ts = some u') : Delivers u u' := by
  obtain ⟨⟨q, rest, notify⟩, h₁, h⟩ := Option.bind_eq_some_iff.mp h
  cases h
  by_cases hfull : u.base.isFull = true
  · unfold menUiqPopAll at h₁
    rw [if_pos hfull] at h₁
    obtain ⟨⟨q', rest'⟩, h₂, h₁⟩ := Option.bind_eq_some_iff.mp h₁
    cases h₁
    rw [if_pos hfull]
    exact ⟨rfl, Nat.le_refl _, fun _ _ => .inr (drainLoop_fill h₂)⟩
  · rw [if_neg hfull]
    exact completeAt_delivers u { u with base := q } rfl rfl

theorem replaceBuffer_fill {newBuffer : Nat → Word} {newBufferSize : Nat}
    (h : replaceBuffer q newBuffer newBufferSize = some q') :
    q'.fill = min q.fill newBufferSize ∧ q'.capacity = newBufferSize := by
  obtain ⟨buffer, _, h⟩ := Option.bind_eq_some_iff.mp h
  dsimp only at h
  split at h
  · obtain ⟨buffer', _, h⟩ := Option.bind_eq_some_iff.mp h
    cases h
    exact ⟨rfl, rfl⟩
  · cases h
    exact ⟨rfl, rfl⟩

theorem menScaleUiqOf_kept {len : Nat} {newBuffer : Option (Nat → Word)}
    (h : menScaleUiqOf u len newBuffer = some u') :
    u'.cpltodo = u.cpltodo ∧ u'.cpl = u.cpl ∧
      (u'.base = u.base ∨ u'.base.fill = min u.base.fill (len / 4) ∧ u'.base.capacity = len / 4) := by
  obtain ⟨q, h₁, h⟩ := Option.bind_eq_some_iff.mp h
  cases h
  refine ⟨rfl, rfl, ?_⟩
  unfold menScaleUiq at h₁
  split_ifs at h₁
  · cases h₁
    exact .inl rfl
  · cases newBuffer with
    | none =>
      cases h₁
      exact .inl rfl
    | some buffer => exact .inr (replaceBuffer_fill h₁)

end Sections

section Steps
variable {s t : ReadSys} {e : ReadEvent}

/-- With nobody asleep there is nothing to wake. -/
theorem armed_of_none (h : s.reader = none) : Armed s where
  waiting n hn := by
    rw [h] at hn
    cases hn
  woken n completed hn := by
    rw [h] at hn
    cases hn
  reached n hn := by
    rw [h] at hn
    cases hn

theorem Armed.reader_none (hs : Armed s) (h0 : s.uiq.cpltodo = 0) : s.reader = none := by
  cases hr : s.reader with
  | none => rfl
  | some r =>
    cases r with
    | waiting n => exact absurd h0 (hs.waiting n hr).1
    | woken n completed => exact absurd h0 (hs.woken n completed hr)

theorem Armed.deliver (hs : Armed s) {u : MenableUiq} (hd : Delivers s.uiq u) :
    Armed { s with uiq := u } where
  waiting n hn := by
    obtain ⟨hne, htodo⟩ := hs.waiting n hn
    have hcpl := hd.cpl
    rw [hd.cpltodo]
    exact ⟨hne, htodo.imp_right fun h => by dsimp only; omega⟩
  woken n completed hn := by
    rw [hd.cpltodo]
    exact hs.woken n completed hn
  reached n hn hle := by
    have hcpl := hd.cpl
    obtain ⟨hne, htodo | hpos⟩ := hs.waiting n hn
    · rcases hd.reached hne (by rw [htodo]; exact hle) with hpos | hfill
      · exact hpos
      · have := hs.reached n hn (hfill ▸ hle)
        dsimp only
        omega
    · dsimp only
      omega

theorem readerStep_armed (hs : Armed s) (hG : ¬ SleepsOn s e) (h : readerStep s e = some t) : Armed t := by
  cases e with
  | read bufferSize =>
    simp only [readerStep] at h
    split_ifs at h with h0 hfew
    · cases h
      exact ⟨hs.waiting, hs.woken, hs.reached⟩
    · cases h
      refine ⟨fun n hn => ?_, fun n c hn => (by cases hn), fun n hn hle => ?_⟩
      · cases hn
        exact ⟨by dsimp only; omega, .inl rfl⟩
      · cases hn
        dsimp only at hle
        omega
    · obtain ⟨⟨u, r⟩, h₁, h⟩ := Option.bind_eq_some_iff.mp h
      cases h
      exact armed_of_none (hs.reader_none (not_not.mp h0))
  | wake =>
    simp only [readerStep] at h
    split at h
    · rename_i n hn
      split_ifs at h
      cases h
      refine ⟨fun n' hn' => (by cases hn'), fun n' c hn' => ?_, fun n' hn' => (by cases hn')⟩
      exact (hs.waiting n hn).1
    · cases h
  | timeOut =>
    simp only [readerStep] at h
    split at h
    · rename_i n hn
      cases h
      refine ⟨fun n' hn' => (by cases hn'), fun n' c hn' => ?_, fun n' hn' => (by cases hn')⟩
      exact (hs.waiting n hn).1
    · cases h
  | resume fatal =>
    simp only [readerStep] at h
    split at h
    · rename_i n completed hn
      split_ifs at h with hagain
      · cases h
        obtain ⟨hc, hfew, hfatal⟩ := hagain
        subst hc
        have htodo : s.uiq.cpltodo = n := by
          by_contra hne
          exact hG ⟨by simpa using hfatal, n, hn, hfew, hne⟩
        refine ⟨fun n' hn' => ?_, fun n' c hn' => (by cases hn'), fun n' hn' hle => ?_⟩
        · cases hn'
          exact ⟨hs.woken n true hn, .inl htodo⟩
        · cases hn'
          dsimp only at hle
          omega
      · obtain ⟨⟨u, r⟩, h₁, h⟩ := Option.bind_eq_some_iff.mp h
        cases h
        exact armed_of_none rfl
    · cases h
  | visit words ts =>
    obtain ⟨u, h₁, h⟩ := Option.bind_eq_some_iff.mp h
    cases h
    exact hs.deliver (readVisit_delivers h₁)
  | popAll words ts =>
    obtain ⟨u, h₁, h⟩ := Option.bind_eq_some_iff.mp h
    cases h
    exact hs.deliver (menUiqPopAllComplete_delivers h₁)
  | scale len newBuffer =>
    obtain ⟨u, h₁, h⟩ := Option.bind_eq_some_iff.mp h
    cases h
    obtain ⟨htodo, hcpl, hbase⟩ := menScaleUiqOf_kept h₁
    have hfill : u.base.fill ≤ s.uiq.base.fill := by
      rcases hbase with hbase | ⟨hbase, _⟩
      · rw [hbase]
      · rw [hbase]
        exact Nat.min_le_left ..
    refine ⟨fun n hn => ?_, fun n c hn => ?_, fun n hn hle => ?_⟩
    · dsimp only
      rw [htodo, hcpl]
      exact hs.waiting n hn
    · dsimp only
      rw [htodo]
      exact hs.woken n c hn
    · dsimp only
      rw [hcpl]
      exact hs.reached n hn (Nat.le_trans hle hfill)
  | reset =>
    cases h
    unfold menUiqWritefill
    dsimp only
    split_ifs with h0
    · have hmark : cpltodoCleared ≠ 0 := by decide
      exact ⟨fun n hn => ⟨hmark, .inr (Nat.succ_pos _)⟩, fun n c hn => hmark, fun n hn hle => Nat.succ_pos _⟩
    · exact armed_of_none (hs.reader_none (not_not.mp h0))

/-- A read queue as it is created, with nobody asleep. -/
def emptyReadQueue (buffer : Nat → Word) (capacity id : Nat) (protocol : UiqProtocol) (cpl : Nat) : ReadSys :=
  { uiq := { base := uiqBaseInit buffer capacity id .read protocol 0, cpl := cpl } }

/-- A woken reader goes back to sleep only while `cpltodo` holds its number: then no run loses
a wake-up. -/
theorem readers_woken (buffer : Nat → Word) (capacity id : Nat) (protocol : UiqProtocol) (cpl : Nat)
    (es : List ReadEvent)
    (hes : Meets (ofOption readerStep) (fun s e => ¬ SleepsOn s e) (emptyReadQueue buffer capacity id protocol cpl) es) :
    Always (ofOption readerStep) ReaderWoken (emptyReadQueue buffer capacity id protocol cpl) es := by
  refine (always_of_meets (P := Armed) (fun s e t hG hs h => ?_) (armed_of_none rfl) hes).mono fun s hs =>
    hs.reached
  exact readerStep_armed hs hG (ofOption_ok.mp h)

end Steps

/-! ### The board's deliveries -/

/-- The payload of a packet for a read queue is one visit. -/
theorem popLoopOf_foldlM {i : Nat} {ts : UiqTimestamp} {m m' : Messaging} {u : MenableUiq}
    {numWords rest : Nat}
    (hu : m.uiqs i = some u) (h : popLoopOf i ts m numWords = some (m', rest)) :
    ∃ (words : List Word) (u' : MenableUiq), words.foldlM (popInto ts) u = some u' ∧ m'.uiqs i = some u' := by
  induction numWords generalizing m u with
  | zero =>
    cases h
    exact ⟨[], u, rfl, hu⟩
  | succ n ih =>
    simp only [popLoopOf] at h
    split_ifs at h
    · obtain ⟨⟨w, m₁⟩, h₁, h⟩ := Option.bind_eq_some_iff.mp h
      obtain ⟨m₂, h₂, h⟩ := Option.bind_eq_some_iff.mp h
      have hu₁ : m₁.uiqs i = some u := by
        unfold menFetchNextIncomingUiqWord at h₁
        split at h₁ <;> cases h₁
        exact hu
      simp only [popWord, hu₁, Option.bind_eq_bind, Option.bind_some] at h₂
      obtain ⟨⟨q, more⟩, h₃, h₂⟩ := Option.bind_eq_some_iff.mp h₂
      cases h₂
      have hset : ∀ v, (m₁.setUiq i v).countDown.uiqs i = some v := Messaging.setUiq_self m₁ i
      obtain ⟨words, u', hwords, hu'⟩ := ih (hset _) h
      refine ⟨w :: words, u', ?_, hu'⟩
      rw [List.foldlM_cons, popInto, h₃]
      exact hwords
    · cases h
      exact ⟨[], u, rfl, hu⟩

theorem processPayload_readVisit {m m' : Messaging} {i numWords rest : Nat} {ts : UiqTimestamp}
    {u : MenableUiq}
    (hcurrent : m.transfer.currentUiq = some i) (hu : m.uiqs i = some u) (hread : u.base.type = .read)
    (h : processPayload m numWords ts = some (m', rest)) :
    ∃ words u', readVisit u words ts = some u' ∧ m'.uiqs i = some u' := by
  simp only [processPayload, hcurrent, hu, hread, Option.bind_eq_bind, Option.bind_some, if_true] at h
  obtain ⟨⟨m₁, n⟩, h₁, h⟩ := Option.bind_eq_some_iff.mp h
  obtain ⟨words, u₁, hwords, hu₁⟩ := popLoopOf_foldlM hu h₁
  simp only [readVisitDone, hu₁, Option.bind_eq_bind, Option.bind_some] at h
  cases h
  refine ⟨words, _, ?_, Messaging.setUiq_self ..⟩
  rw [readVisit, hwords]
  rfl

section Example

def sleepsOnCheck (s : ReadSys) : ReadEvent → Bool
  | .resume fatal =>
    match s.reader with
    | some (.woken n true) => !fatal && decide (s.uiq.base.fill < n) && decide (s.uiq.cpltodo ≠ n)
    | _ => false
  | _ => false

theorem sleepsOnCheck_sound (s : ReadSys) (e : ReadEvent) (h : (!sleepsOnCheck s e) = true) :
    ¬ SleepsOn s e := by
  intro hs
  cases e with
  | resume fatal =>
    obtain ⟨hfatal, n, hn, hfew, htodo⟩ := hs
    simp [sleepsOnCheck, hn, hfatal, hfew, htodo] at h
  | _ => exact hs

def noTimestamp : UiqTimestamp := ⟨fun _ => 0⟩

/-- Two words arrive one after the other while a reader waits for them. -/
def readInTime : List ReadEvent :=
  [.read 8, .visit [1#32] noTimestamp, .visit [2#32] noTimestamp, .wake, .resume false]

theorem readers_woken_in_time :
    Always (ofOption readerStep) ReaderWoken (emptyReadQueue (fun _ => 0) 2 7 .raw 0) readInTime := by
  have hG : Meets (ofOption readerStep) (fun s e => ¬ SleepsOn s e) (emptyReadQueue (fun _ => 0) 2 7 .raw 0)
      readInTime := meets_of_check sleepsOnCheck_sound (by decide +kernel)
  exact readers_woken _ 2 7 .raw 0 _ hG

/-- The queue is cleared while a reader waits: it goes back to sleep, and the word that it
waits for does not wake it. -/
def clearedRead : List ReadEvent :=
  [.read 4, .reset, .wake, .resume false, .visit [1#32] noTimestamp]

theorem reader_lost : ∃ t, run (ofOption readerStep) (emptyReadQueue (fun _ => 0) 2 7 .raw 0)
    clearedRead = .ok t ∧
    ¬ ReaderWoken t := by
  obtain ⟨t, ht, hp⟩ := exists_of_check (ofOption readerStep)
    (emptyReadQueue (fun _ => 0) 2 7 .raw 0) clearedRead
    (fun t => decide (t.reader = some (.waiting 1) ∧ t.uiq.base.fill = 1 ∧ t.uiq.cpl = 0)) (by decide +kernel)
  obtain ⟨hreader, hfill, hcpl⟩ := of_decide_eq_true hp
  exact ⟨t, ht, fun hw => absurd (hw 1 hreader (by omega)) (by omega)⟩

end Example

end MenableDriver
