import MenableDriver.Transition.Run
import MenableDriver.Uiq.Ring

/-!
# Losses of a read queue

A word that was stored behind a loss shall carry `UIQ_CONTROL_DATALOSS`. A run is logged
by what it does to the contents of the queue: a word that arrived was stored or dropped,
and a smaller buffer drops words that were stored before.
-/

namespace MenableDriver

set_option autoImplicit false

open Transition (ofOption run Meets Always)

/-- `men_uiq_pop` with the word of the device. It returns whether more words follow. -/
def menUiqPop (q : UiqBase) (dataWord : Word) (ts : UiqTimestamp) : Option (UiqBase × Bool) := do
  let q ← writeFromGrabber q dataWord ts
  some (q, decide (q.readProtocol = .legacy) && !areBitsSet dataWord UIQ_CONTROL_EOT &&
    !areBitsSet dataWord UIQ_CONTROL_INVALID)

/-- One word of the loop that empties the device in front of a full queue. -/
def drainWord (q : UiqBase) (val : Word) : UiqBase :=
  if val &&& UIQ_CONTROL_INVALID = 0 then { q with lostWordsCount := Counter.inc q.lostWordsCount } else q

/-- The loops of `men_uiq_pop_all` read the words `words` of the device and return the ones
that they leave there. Without a last word they do not end. -/
def drainLoop (q : UiqBase) : List Word → Option (UiqBase × List Word)
  | [] => none
  | w :: ws => if w &&& UIQ_CONTROL_EOT = 0 then drainLoop (drainWord q w) ws else some (drainWord q w, ws)

def menUiqPopLoop (q : UiqBase) (ts : UiqTimestamp) : List Word → Option (UiqBase × List Word)
  | [] => none
  | w :: ws => do
    let (q, more) ← menUiqPop q w ts
    if more then menUiqPopLoop q ts ws else some (q, ws)

def menUiqPopAll (q : UiqBase) (words : List Word) (ts : UiqTimestamp) :
    Option (UiqBase × List Word × Bool) :=
  if q.isFull then do
    let (q, rest) ← drainLoop q words
    some (q, rest, false)
  else do
    let wasEmpty := q.isEmpty
    let (q, rest) ← menUiqPopLoop q ts words
    some ({ q with irqCount := Counter.inc q.irqCount }, rest, wasEmpty && !q.isEmpty)

/-- `men_scale_uiq`; without memory for the new buffer nothing changes. -/
def menScaleUiq (q : UiqBase) (len : Nat) (newBuffer : Option (Nat → Word)) : Option UiqBase :=
  if q.capacity = len / 4 then some q
  else
    match newBuffer with
    | none => some q
    | some newBuffer => replaceBuffer q newBuffer (len / 4)

/-- What became of a word: it was stored, it is a piece of the timestamp behind a stored
word, or it was dropped. -/
inductive Entry where
  | stored (w : Word)
  | stamp (w : Word)
  | dropped
deriving DecidableEq

/-- The word that an entry keeps in the queue. -/
def Entry.word? : Entry → Option Word
  | .stored w => some w
  | .stamp w => some w
  | .dropped => none

/-- The queue and what became of its words, the last one first. -/
structure LossLog where
  queue : UiqBase
  past : List Entry := []

/-- What the arrival of a word added to the contents of the queue. -/
def arrival (before after : UiqBase) (value : Word) : List Entry :=
  match after.contents.drop before.fill with
  | [] => if areBitsSet value UIQ_CONTROL_INVALID then [] else [.dropped]
  | w :: stamps => (stamps.map Entry.stamp).reverse ++ [.stored w]

/-- The queue lost its last `n` words. -/
def forget : Nat → List Entry → List Entry
  | 0, past => past
  | _ + 1, [] => []
  | n + 1, .stored _ :: past => .dropped :: forget n past
  | n + 1, .stamp _ :: past => forget n past
  | n + 1, .dropped :: past => .dropped :: forget (n + 1) past

/-- Some of the last `n` words had arrived. -/
def forgetsStored : Nat → List Entry → Bool
  | 0, _ => false
  | _ + 1, [] => false
  | _ + 1, .stored _ :: _ => true
  | n + 1, .stamp _ :: past => forgetsStored n past
  | n + 1, .dropped :: past => forgetsStored (n + 1) past

inductive LossEvent where
  | arrive (value : Word) (ts : UiqTimestamp)
  | drain (val : Word)
  | popFront (numWordsToRead : Nat)
  | replaceBuffer (newBuffer : Nat → Word) (newBufferSize : Capacity)

def lossStep (t : LossLog) : LossEvent → Option LossLog
  | .arrive value ts => do
    let q ← writeFromGrabber t.queue value ts
    some ⟨q, arrival t.queue q value ++ t.past⟩
  | .drain val =>
    if t.queue.isFull then
      some ⟨drainWord t.queue val, arrival t.queue (drainWord t.queue val) val ++ t.past⟩
    else none
  | .popFront n => do
    let (_, q) ← popFront t.queue n
    some ⟨q, t.past⟩
  | .replaceBuffer newBuffer newBufferSize => do
    let q ← replaceBuffer t.queue newBuffer newBufferSize
    some ⟨q, forget (t.queue.fill - q.fill) t.past⟩

/-- Between two words that were stored one after the other a word was dropped, and the
later one does not say so. -/
def Unmarked (past : List Entry) : Prop :=
  ∃ newer mid older w v, past = newer ++ .stored w :: (mid ++ .stored v :: older) ∧
    (∀ u, .stored u ∉ mid) ∧ .dropped ∈ mid ∧ areBitsSet w UIQ_CONTROL_DATALOSS = false

/-- A loss that `last_words_were_lost` does not hear of: the drain counts the word only,
and so does a smaller buffer. -/
def SilentLoss (t : LossLog) : LossEvent → Prop
  | .arrive _ _ => False
  | .drain val => val &&& UIQ_CONTROL_INVALID = 0 ∧ t.queue.lastWordsWereLost = false
  | .popFront _ => False
  | .replaceBuffer _ newBufferSize =>
    forgetsStored (t.queue.fill - newBufferSize) t.past = true ∧ t.queue.lastWordsWereLost = false

/-! ### What the writers do to the contents -/

variable {q q' : UiqBase} {value : Word} {ts : UiqTimestamp}

theorem areBitsSet_or (v m n : Word) (h : n &&& m = m) : areBitsSet ((v ||| m) &&& n) m = true := by
  have hor : (v ||| m) &&& m = m := by
    ext i
    simp only [BitVec.getElem_and, BitVec.getElem_or]
    cases m[i] <;> simp
  rw [areBitsSet, BitVec.and_assoc, h, hor, beq_self_eq_true]

/-- The value with the marker of the queue. -/
def flagged (q : UiqBase) (value : Word) : Word :=
  if q.lastWordsWereLost then value ||| UIQ_CONTROL_DATALOSS else value

/-- A word is stored at the end, with the marker if one is due, or it is dropped. -/
inductive Written (q q' : UiqBase) : Prop where
  | dropped (contents : q'.contents = q.contents) (lost : q'.lastWordsWereLost = true)
  | stored (w : Word) (stamps : List Word) (contents : q'.contents = q.contents ++ w :: stamps)
      (lost : q'.lastWordsWereLost = false)
      (marked : q.lastWordsWereLost = true → areBitsSet w UIQ_CONTROL_DATALOSS = true)

/-- What no writer changes. -/
structure SameQueue (q q' : UiqBase) : Prop where
  type : q'.type = q.type
  capacity : q'.capacity = q.capacity
  readProtocol : q'.readProtocol = q.readProtocol

/-- The rest of a packet that has lost a word. -/
def discards (q : UiqBase) : Prop :=
  q.readProtocol = .vaEvent ∧ q.lastWordsWereLost = true ∧ q.lastWordWasEop = false

instance (q : UiqBase) : Decidable (discards q) := by
  unfold discards
  infer_instance

def wordsKept (q : UiqBase) (value : Word) (ts : UiqTimestamp) : List Word :=
  if q.capacity - q.fill = 0 then []
  else if areBitsSet value UIQ_CONTROL_INSERT_TS ∧ 5 ≤ q.capacity - q.fill then
    decoratedWords (flagged q value) ts
  else [flagged q value]

/-- The effect of a writer that stores `ws`. -/
structure Stores (q q' : UiqBase) (ws : List Word) : Prop where
  ok : q'.Ok
  same : SameQueue q q'
  contents : q'.contents = q.contents ++ ws
  lost : q'.lastWordsWereLost = decide (ws = [])

theorem pushBack_fits (h : q.Ok) {data : List Word} (hne : data ≠ [])
    (hfit : data.length ≤ q.capacity - q.fill) :
    ∃ q' n, pushBack q data = some (q', n) ∧ Stores q q' data ∧ q'.lastWordWasEop = q.lastWordWasEop := by
  have hn : min data.length (q.capacity - q.fill) = data.length := Nat.min_eq_left hfit
  refine ⟨_, _, pushBack_eq h data, ⟨pushed_ok h data rfl, ⟨rfl, rfl, rfl⟩, ?_, ?_⟩, rfl⟩
  · rw [pushed_contents h data rfl, hn, List.take_length]
  · rw [hn, decide_eq_false hne]
    exact decide_eq_false (Nat.lt_irrefl _)

theorem pushBack_full (h : q.Ok) (w : Word) (hfull : q.capacity - q.fill = 0) :
    ∃ q' n, pushBack q [w] = some (q', n) ∧ Stores q q' [] ∧ q'.lastWordWasEop = q.lastWordWasEop := by
  have hn : min [w].length (q.capacity - q.fill) = 0 := by omega
  refine ⟨_, _, pushBack_eq h [w], ⟨pushed_ok h [w] rfl, ⟨rfl, rfl, rfl⟩, ?_, ?_⟩, rfl⟩
  · rw [pushed_contents h [w] rfl, hn, List.take_zero]
  · rw [hn]
    exact decide_eq_true Nat.zero_lt_one

theorem flagged_insert (q : UiqBase) (value : Word) :
    areBitsSet (flagged q value) UIQ_CONTROL_INSERT_TS = areBitsSet value UIQ_CONTROL_INSERT_TS := by
  have hbits : UIQ_CONTROL_DATALOSS &&& UIQ_CONTROL_INSERT_TS = 0#32 := by decide
  unfold flagged
  split
  · rw [areBitsSet, areBitsSet, BitVec.and_or_distrib_right, hbits, BitVec.or_zero]
  · rfl

theorem writeWord_kept (h : q.Ok) (value : Word) (ts : UiqTimestamp) :
    ∃ q', writeWordWithDatalossFlagIfApplicable q value ts = some q' ∧
      Stores q q' (wordsKept q value ts) ∧ q'.lastWordWasEop = q.lastWordWasEop := by
  have hraw : ∀ ws, (q.capacity - q.fill = 0 → ws = []) → (q.capacity - q.fill ≠ 0 → ws = [flagged q value]) →
      ∃ q' n, pushBack q [flagged q value] = some (q', n) ∧ Stores q q' ws ∧
        q'.lastWordWasEop = q.lastWordWasEop := by
    intro ws h0 h1
    by_cases hfull : q.capacity - q.fill = 0
    · rw [h0 hfull]
      exact pushBack_full h _ hfull
    · rw [h1 hfull]
      exact pushBack_fits h (by simp) (by rw [List.length_singleton]; omega)
  simp only [writeWordWithDatalossFlagIfApplicable]
  rw [show (if q.lastWordsWereLost then value ||| UIQ_CONTROL_DATALOSS else value) = flagged q value from rfl,
    flagged_insert]
  by_cases hts : areBitsSet value UIQ_CONTROL_INSERT_TS = true
  · rw [if_pos hts, pushBackDecoratedWithTimestamp, getFreeCapacity_eq h]
    split_ifs with hfree
    · obtain ⟨q', n, he, hrest⟩ := hraw (wordsKept q value ts) (fun h0 => if_pos h0)
        (fun h1 => by rw [wordsKept, if_neg h1, if_neg (by omega)])
      exact ⟨q', by rw [he]; rfl, hrest⟩
    · have hkept : wordsKept q value ts = decoratedWords (flagged q value) ts := by
        rw [wordsKept, if_neg (by omega), if_pos ⟨hts, by omega⟩]
      have hlen : (decoratedWords (flagged q value) ts).length = 5 := rfl
      have hne : decoratedWords (flagged q value) ts ≠ [] := by simp [decoratedWords]
      obtain ⟨q', n, he, hrest⟩ := pushBack_fits h hne (by omega)
      exact ⟨q', by rw [he]; rfl, hkept ▸ hrest⟩
  · rw [if_neg hts]
    obtain ⟨q', n, he, hrest⟩ := hraw (wordsKept q value ts) (fun h0 => if_pos h0)
      (fun h1 => by rw [wordsKept, if_neg h1, if_neg fun hc => hts hc.1])
    exact ⟨q', by rw [he]; rfl, hrest⟩

theorem writeFromGrabber_invalid (hp : q.readProtocol ≠ .raw)
    (hinv : areBitsSet value UIQ_CONTROL_INVALID = true) (ts : UiqTimestamp) :
    writeFromGrabber q value ts = some q := by
  cases hproto : q.readProtocol with
  | raw => exact absurd hproto hp
  | legacy => simp only [writeFromGrabber, hproto, writeFromGrabberLegacy, if_pos hinv]
  | vaEvent => simp only [writeFromGrabber, hproto, writeFromGrabberVaEvent, if_pos hinv]

/-- A valid word is discarded with its packet, or as much of it is stored as there is room. -/
theorem writeFromGrabber_kept (h : q.Ok) (hp : q.readProtocol ≠ .raw)
    (hv : areBitsSet value UIQ_CONTROL_INVALID = false) (ts : UiqTimestamp) :
    ∃ q', writeFromGrabber q value ts = some q' ∧
      Stores q q' (if discards q then [] else wordsKept q value ts) ∧
      (q.readProtocol = .vaEvent → q'.lastWordWasEop = areBitsSet value UIQ_CONTROL_EOT) := by
  obtain ⟨q', he, hs, _⟩ := writeWord_kept h value ts
  have hval : ¬ areBitsSet value UIQ_CONTROL_INVALID = true := by simp [hv]
  cases hproto : q.readProtocol with
  | raw => exact absurd hproto hp
  | legacy =>
    have hd : ¬ discards q := fun hd => by
      have hva := hd.1
      simp [hproto] at hva
    refine ⟨q', ?_, by rwa [if_neg hd], by simp⟩
    simp only [writeFromGrabber, hproto, writeFromGrabberLegacy, if_neg hval, he]
  | vaEvent =>
    simp only [writeFromGrabber, hproto, writeFromGrabberVaEvent, if_neg hval, he]
    by_cases hlost : q.lastWordsWereLost = true ∧ ¬ q.lastWordWasEop = true
    · have hd : discards q := ⟨hproto, hlost.1, Bool.eq_false_iff.mpr hlost.2⟩
      rw [if_pos hlost, if_pos hd]
      refine ⟨_, rfl, ⟨⟨h.capacity, h.fill, h.readIndex⟩, ⟨rfl, rfl, rfl⟩, ?_, rfl⟩, fun _ => rfl⟩
      exact (List.append_nil _).symm
    · have hd : ¬ discards q := fun hd => hlost ⟨hd.2.1, by simp [hd.2.2]⟩
      rw [if_neg hlost, if_neg hd]
      exact ⟨_, rfl, ⟨⟨hs.ok.capacity, hs.ok.fill, hs.ok.readIndex⟩,
        ⟨hs.same.type, hs.same.capacity, hs.same.readProtocol⟩, hs.contents, hs.lost⟩, fun _ => rfl⟩

theorem Stores.written {ws : List Word} (hs : Stores q q' ws)
    (hw : ws = [] ∨ ∃ w stamps, ws = w :: stamps ∧
      (q.lastWordsWereLost = true → areBitsSet w UIQ_CONTROL_DATALOSS = true)) : Written q q' := by
  rcases hw with rfl | ⟨w, stamps, rfl, hmarked⟩
  · exact .dropped (hs.contents.trans (List.append_nil _)) hs.lost
  · exact .stored w stamps hs.contents hs.lost hmarked

/-- The first word that is stored has the marker, if one is due. -/
theorem wordsKept_flagged (q : UiqBase) (value : Word) (ts : UiqTimestamp) :
    wordsKept q value ts = [] ∨ ∃ w stamps, wordsKept q value ts = w :: stamps ∧
      (q.lastWordsWereLost = true → areBitsSet w UIQ_CONTROL_DATALOSS = true) := by
  have hflag : q.lastWordsWereLost = true → flagged q value = value ||| UIQ_CONTROL_DATALOSS := fun h =>
    if_pos h
  unfold wordsKept
  split_ifs
  · exact .inl rfl
  · refine .inr ⟨_, _, rfl, fun hlost => ?_⟩
    rw [hflag hlost]
    exact areBitsSet_or value _ _ (by decide)
  · refine .inr ⟨_, _, rfl, fun hlost => ?_⟩
    have hor := areBitsSet_or value UIQ_CONTROL_DATALOSS (BitVec.allOnes 32) (by decide)
    rwa [BitVec.and_allOnes, ← hflag hlost] at hor

/-- An invalid word leaves the ring alone, any other word is written. -/
theorem writeFromGrabber_written (h : q.Ok) (hp : q.readProtocol ≠ .raw) (value : Word) (ts : UiqTimestamp) :
    ∃ q', writeFromGrabber q value ts = some q' ∧ q'.Ok ∧ SameQueue q q' ∧
      (areBitsSet value UIQ_CONTROL_INVALID = true ∧ q'.contents = q.contents ∧
        q'.lastWordsWereLost = q.lastWordsWereLost ∨
        areBitsSet value UIQ_CONTROL_INVALID = false ∧ Written q q') := by
  by_cases hinv : areBitsSet value UIQ_CONTROL_INVALID = true
  · exact ⟨q, writeFromGrabber_invalid hp hinv ts, h, ⟨rfl, rfl, rfl⟩, .inl ⟨hinv, rfl, rfl⟩⟩
  · have hval := Bool.eq_false_iff.mpr hinv
    obtain ⟨q', he, hs, _⟩ := writeFromGrabber_kept h hp hval ts
    refine ⟨q', he, hs.ok, hs.same, .inr ⟨hval, hs.written ?_⟩⟩
    split_ifs
    · exact .inl rfl
    · exact wordsKept_flagged q value ts

/-- A writer gets stuck on no queue. -/
theorem writeFromGrabber_ok (h : q.Ok) (value : Word) (ts : UiqTimestamp) :
    ∃ q', writeFromGrabber q value ts = some q' ∧ q'.Ok ∧ q'.type = q.type := by
  by_cases hp : q.readProtocol = .raw
  · refine ⟨pushed q [value] (min 1 (q.capacity - q.fill)), ?_, pushed_ok h [value] rfl, rfl⟩
    simp only [writeFromGrabber, hp, writeFromGrabberRaw, pushBack_eq h]
    rfl
  · obtain ⟨q', he, hok, hsame, _⟩ := writeFromGrabber_written h hp value ts
    exact ⟨q', he, hok, hsame.type⟩

/-! ### The log -/

variable {past : List Entry}

/-- A word was dropped after the last one that was stored. -/
def lossSinceStored : List Entry → Bool
  | [] => false
  | .stored _ :: _ => false
  | .stamp _ :: past => lossSinceStored past
  | .dropped :: _ => true

theorem lossSinceStored_append {mid : List Entry} (hs : ∀ u, .stored u ∉ mid) (hd : .dropped ∈ mid)
    (rest : List Entry) : lossSinceStored (mid ++ rest) = true := by
  induction mid with
  | nil => exact absurd hd List.not_mem_nil
  | cons e mid ih =>
    cases e with
    | stored u => exact absurd List.mem_cons_self (hs u)
    | dropped => rfl
    | stamp w =>
      have hmid : ∀ u, .stored u ∉ mid := fun u hu => hs u (List.mem_cons_of_mem _ hu)
      exact ih hmid ((List.mem_cons.mp hd).resolve_left (by simp))

theorem Unmarked.cons (h : Unmarked past) (e : Entry) : Unmarked (e :: past) := by
  obtain ⟨newer, mid, older, w, v, rfl, hrest⟩ := h
  exact ⟨e :: newer, mid, older, w, v, rfl, hrest⟩

/-- A new entry violates the property only as a word that is stored without its marker. -/
theorem Unmarked.of_cons {e : Entry} (h : Unmarked (e :: past)) :
    Unmarked past ∨
      ∃ w, e = .stored w ∧ lossSinceStored past = true ∧ areBitsSet w UIQ_CONTROL_DATALOSS = false := by
  obtain ⟨newer, mid, older, w, v, he, hs, hd, hw⟩ := h
  cases newer with
  | nil =>
    obtain ⟨rfl, rfl⟩ := List.cons.inj he
    exact .inr ⟨w, rfl, lossSinceStored_append hs hd _, hw⟩
  | cons e' newer =>
    obtain ⟨rfl, rfl⟩ := List.cons.inj he
    exact .inl ⟨newer, mid, older, w, v, rfl, hs, hd, hw⟩

theorem not_unmarked_nil : ¬ Unmarked [] := by
  rintro ⟨newer, mid, older, w, v, he, _⟩
  cases newer <;> cases he

theorem not_unmarked_cons {e : Entry} (h : ¬ Unmarked past) (he : ∀ w, e ≠ .stored w) :
    ¬ Unmarked (e :: past) := by
  intro hu
  rcases hu.of_cons with hu | ⟨w, rfl, _⟩
  · exact h hu
  · exact he w rfl

theorem not_unmarked_stamps (h : ¬ Unmarked past) (stamps : List Word) :
    ¬ Unmarked (stamps.map Entry.stamp ++ past) := by
  induction stamps with
  | nil => exact h
  | cons w stamps ih => exact not_unmarked_cons ih (by simp)

theorem lossSinceStored_stamps (stamps : List Word) (past : List Entry) :
    lossSinceStored (stamps.map Entry.stamp ++ past) = lossSinceStored past := by
  induction stamps with
  | nil => rfl
  | cons w stamps ih => exact ih

theorem unmarked_of_forget {n : Nat} (h : Unmarked (forget n past)) : Unmarked past := by
  fun_induction forget n past with
  | case1 => exact h
  | case2 => exact h
  | case3 n w past ih => exact (ih (h.of_cons.resolve_right (by simp))).cons _
  | case4 n w past ih => exact (ih h).cons _
  | case5 n past ih => exact (ih (h.of_cons.resolve_right (by simp))).cons _

theorem lossSinceStored_forget {n : Nat} (h : lossSinceStored (forget n past) = true) :
    forgetsStored n past = true ∨ lossSinceStored past = true := by
  fun_induction forget n past with
  | case1 => exact .inr h
  | case2 => exact .inr h
  | case3 n w past ih => exact .inl rfl
  | case4 n w past ih => exact ih h
  | case5 n past ih => exact .inr rfl

theorem words_forget (n : Nat) (past : List Entry) :
    (forget n past).filterMap Entry.word? = (past.filterMap Entry.word?).drop n := by
  fun_induction forget n past with
  | case1 => rfl
  | case2 => rfl
  | case3 n w past ih => exact ih
  | case4 n w past ih => exact ih
  | case5 n past ih => exact ih

theorem arrival_same (hc : q'.contents = q.contents) (value : Word) :
    arrival q q' value = if areBitsSet value UIQ_CONTROL_INVALID then [] else [.dropped] := by
  have hnil : q.contents.drop q.fill = [] := by simp
  simp only [arrival, hc, hnil]

theorem arrival_stored {w : Word} {stamps : List Word} (hc : q'.contents = q.contents ++ w :: stamps)
    (value : Word) : arrival q q' value = stamps.reverse.map Entry.stamp ++ [.stored w] := by
  have hdrop : (q.contents ++ w :: stamps).drop q.fill = w :: stamps := List.drop_left' (by simp)
  simp only [arrival, hc, hdrop, List.map_reverse]

/-- The words in the queue are the last ones that the log has stored. -/
def Kept (t : LossLog) : Prop :=
  t.queue.contents = ((t.past.filterMap Entry.word?).take t.queue.fill).reverse

structure Logged (t : LossLog) : Prop where
  ok : t.queue.Ok
  protocol : t.queue.readProtocol ≠ .raw
  kept : Kept t

/-- What the marker of the next word rests on. -/
structure Told (t : LossLog) : Prop where
  told : lossSinceStored t.past = true → t.queue.lastWordsWereLost = true
  marked : ¬ Unmarked t.past

theorem kept_same {past : List Entry} (h : Kept ⟨q, past⟩) (hc : q'.contents = q.contents)
    {news : List Entry} (hn : news.filterMap Entry.word? = []) : Kept ⟨q', news ++ past⟩ := by
  have hfill : q'.fill = q.fill := by rw [← q'.length_contents, hc, q.length_contents]
  change q'.contents = (((news ++ past).filterMap Entry.word?).take q'.fill).reverse
  rw [hc, hfill, List.filterMap_append, hn, List.nil_append]
  exact h

theorem kept_stored {past : List Entry} (h : Kept ⟨q, past⟩) {w : Word} {stamps : List Word}
    (hc : q'.contents = q.contents ++ w :: stamps) :
    Kept ⟨q', stamps.reverse.map Entry.stamp ++ [Entry.stored w] ++ past⟩ := by
  have hfill : q'.fill = (w :: stamps).reverse.length + q.fill := by
    rw [← q'.length_contents, hc, List.length_append, q.length_contents, List.length_reverse, Nat.add_comm]
  have hstamps : ∀ l : List Word, (l.map Entry.stamp).filterMap Entry.word? = l := by
    intro l
    simp [List.filterMap_map, Function.comp_def, Entry.word?]
  have hwords : (stamps.reverse.map Entry.stamp ++ [Entry.stored w] ++ past).filterMap Entry.word? =
      (w :: stamps).reverse ++ past.filterMap Entry.word? := by
    simp only [List.filterMap_append, hstamps, List.reverse_cons]
    rfl
  change q'.contents = _
  rw [hwords, hfill, List.take_length_add_append, List.reverse_append, List.reverse_reverse, hc]
  congr 1

theorem kept_popped (h : Kept ⟨q, past⟩) {n : Nat} (hn : n ≤ q.fill) : Kept ⟨popped q n, past⟩ := by
  have hq : q.contents = ((past.filterMap Entry.word?).take q.fill).reverse := h
  have hlen : ((past.filterMap Entry.word?).take q.fill).length = q.fill := by
    rw [← List.length_reverse, ← hq, q.length_contents]
  change (popped q n).contents = ((past.filterMap Entry.word?).take (q.fill - n)).reverse
  rw [popped_contents hn, hq, List.drop_reverse, hlen, List.take_take]
  congr 2
  omega

theorem kept_forget (h : Kept ⟨q, past⟩) {n : Nat} (hc : q'.contents = q.contents.take n) :
    Kept ⟨q', forget (q.fill - q'.fill) past⟩ := by
  have hq : q.contents = ((past.filterMap Entry.word?).take q.fill).reverse := h
  have hlen : ((past.filterMap Entry.word?).take q.fill).length = q.fill := by
    rw [← List.length_reverse, ← hq, q.length_contents]
  have hfill : q'.fill = min n q.fill := by
    rw [← q'.length_contents, hc, List.length_take, q.length_contents]
  change q'.contents = (((forget (q.fill - q'.fill) past).filterMap Entry.word?).take q'.fill).reverse
  rw [hc, hq, words_forget, List.take_reverse, hlen, List.drop_take]
  congr 2
  · omega
  · congr 1
    omega

theorem popped_ok (h : q.Ok) (n : Nat) : (popped q (min n q.fill)).Ok := by
  obtain ⟨_, hr⟩ := popFront_refines (f := ⟨q.capacity, q.contents, by simpa using h.fill⟩) ⟨h, rfl, rfl⟩ n
  exact hr.ok

/-- The queue as a bounded queue. -/
def UiqBase.fifo (q : UiqBase) (h : q.Ok) : Fifo Word := ⟨q.capacity, q.contents, by simpa using h.fill⟩

theorem refines_fifo (h : q.Ok) : Refines q (q.fifo h) := ⟨h, rfl, rfl⟩

theorem drainWord_ok (h : q.Ok) (val : Word) : (drainWord q val).Ok := by
  unfold drainWord
  split
  · exact ⟨h.capacity, h.fill, h.readIndex⟩
  · exact h

theorem drainWord_same (q : UiqBase) (val : Word) :
    (drainWord q val).contents = q.contents ∧ SameQueue q (drainWord q val) ∧
      (drainWord q val).lastWordsWereLost = q.lastWordsWereLost := by
  unfold drainWord
  split <;> exact ⟨rfl, ⟨rfl, rfl, rfl⟩, rfl⟩

/-! ### What each event does -/

variable {t t' : LossLog}

theorem arrive_step (h : Logged t) (value : Word) (ts : UiqTimestamp) :
    ∃ t', lossStep t (.arrive value ts) = some t' ∧ Logged t' ∧ (Told t → Told t') := by
  obtain ⟨q, past⟩ := t
  obtain ⟨q', he, hok, hsame, hw⟩ := writeFromGrabber_written h.ok h.protocol value ts
  have hproto : q'.readProtocol ≠ .raw := by
    rw [hsame.readProtocol]
    exact h.protocol
  refine ⟨⟨q', arrival q q' value ++ past⟩, by simp only [lossStep, he]; rfl, ?_⟩
  rcases hw with ⟨hinv, hc, hl⟩ | ⟨hval, ⟨hc, hl⟩ | ⟨w, stamps, hc, hl, hm⟩⟩
  · rw [arrival_same hc, if_pos hinv]
    refine ⟨⟨hok, hproto, kept_same h.kept hc rfl⟩, fun ht => ⟨fun hloss => ?_, ht.marked⟩⟩
    exact hl.trans (ht.told hloss)
  · rw [arrival_same hc, if_neg (by simp [hval])]
    exact ⟨⟨hok, hproto, kept_same h.kept hc rfl⟩,
      fun ht => ⟨fun _ => hl, not_unmarked_cons ht.marked (by simp)⟩⟩
  · rw [arrival_stored hc]
    refine ⟨⟨hok, hproto, kept_stored h.kept hc⟩, fun ht => ?_⟩
    simp only [List.append_assoc, List.cons_append, List.nil_append]
    constructor
    · intro hloss
      rw [lossSinceStored_stamps] at hloss
      cases hloss
    · refine not_unmarked_stamps (fun hu => ?_) _
      rcases hu.of_cons with hu | ⟨w', hw', hloss, hunmarked⟩
      · exact ht.marked hu
      · cases hw'
        rw [hm (ht.told hloss)] at hunmarked
        cases hunmarked

theorem invalid_bit (val : Word) : areBitsSet val UIQ_CONTROL_INVALID = true ↔
    val &&& UIQ_CONTROL_INVALID ≠ 0 := by
  have hbit : UIQ_CONTROL_INVALID = BitVec.twoPow 32 31 := by decide
  have hne : UIQ_CONTROL_INVALID ≠ 0 := by decide
  simp only [areBitsSet, beq_iff_eq]
  rw [hbit, BitVec.and_twoPow, ← hbit]
  split
  · exact iff_of_true rfl hne
  · exact iff_of_false hne.symm (by simp)

theorem drain_step (h : Logged t) (val : Word) (hfull : t.queue.isFull = true) :
    ∃ t', lossStep t (.drain val) = some t' ∧ Logged t' ∧
      (¬ SilentLoss t (.drain val) → Told t → Told t') := by
  obtain ⟨q, past⟩ := t
  obtain ⟨hc, hsame, hl⟩ := drainWord_same q val
  have hproto : (drainWord q val).readProtocol ≠ .raw := by
    rw [hsame.readProtocol]
    exact h.protocol
  refine ⟨⟨drainWord q val, arrival q (drainWord q val) val ++ past⟩, if_pos hfull, ?_⟩
  rw [arrival_same hc]
  by_cases hinv : areBitsSet val UIQ_CONTROL_INVALID = true
  · rw [if_pos hinv]
    exact ⟨⟨drainWord_ok h.ok val, hproto, kept_same h.kept hc rfl⟩,
      fun _ ht => ⟨fun hloss => hl.trans (ht.told hloss), ht.marked⟩⟩
  · rw [if_neg hinv]
    refine ⟨⟨drainWord_ok h.ok val, hproto, kept_same h.kept hc rfl⟩, fun hheard ht => ?_⟩
    have hvalid : val &&& UIQ_CONTROL_INVALID = 0 := by
      by_contra hne
      exact hinv ((invalid_bit val).mpr hne)
    refine ⟨fun _ => ?_, not_unmarked_cons ht.marked (by simp)⟩
    rw [hl]
    exact Bool.eq_true_of_not_eq_false fun hf => hheard ⟨hvalid, hf⟩

theorem popFront_step (h : Logged t) (n : Nat) :
    ∃ t', lossStep t (.popFront n) = some t' ∧ Logged t' ∧ (Told t → Told t') := by
  obtain ⟨q, past⟩ := t
  refine ⟨⟨popped q (min n q.fill), past⟩, by simp only [lossStep, popFront_eq h.ok]; rfl,
    ⟨popped_ok h.ok n, h.protocol, kept_popped h.kept (Nat.min_le_right ..)⟩, fun ht => ⟨ht.told, ht.marked⟩⟩

theorem replaceBuffer_step (h : Logged t) (newBuffer : Nat → Word) (newBufferSize : Capacity) :
    ∃ t', lossStep t (.replaceBuffer newBuffer newBufferSize) = some t' ∧ Logged t' ∧
      (¬ SilentLoss t (.replaceBuffer newBuffer newBufferSize) → Told t → Told t') := by
  obtain ⟨q, past⟩ := t
  obtain ⟨q', he, hr, hl, _, hp, _⟩ := replaceBuffer_refines (refines_fifo h.ok) newBuffer newBufferSize.2
  have hc : q'.contents = q.contents.take newBufferSize := hr.contents
  have hfill : q'.fill = min newBufferSize.1 q.fill := by
    rw [← q'.length_contents, hc, List.length_take, q.length_contents]
  have hcut : q.fill - q'.fill = q.fill - newBufferSize := by omega
  refine ⟨⟨q', forget (q.fill - q'.fill) past⟩, by simp only [lossStep, he]; rfl,
    ⟨hr.ok, by rw [hp]; exact h.protocol, kept_forget h.kept hc⟩, fun hheard ht => ?_⟩
  refine ⟨fun hloss => ?_, fun hu => ht.marked (unmarked_of_forget hu)⟩
  rw [hl]
  rcases lossSinceStored_forget hloss with hforgets | hloss
  · rw [hcut] at hforgets
    exact Bool.eq_true_of_not_eq_false fun hf => hheard ⟨hforgets, hf⟩
  · exact ht.told hloss

/-- No event gets stuck but a drain in front of a queue that is not full. -/
theorem lossStep_spec (h : Logged t) (e : LossEvent)
    (hdrain : ∀ val, e = .drain val → t.queue.isFull = true) :
    ∃ t', lossStep t e = some t' ∧ Logged t' ∧ (¬ SilentLoss t e → Told t → Told t') := by
  cases e with
  | arrive value ts =>
    obtain ⟨t', he, hl, ht⟩ := arrive_step h value ts
    exact ⟨t', he, hl, fun _ => ht⟩
  | drain val => exact drain_step h val (hdrain val rfl)
  | popFront n =>
    obtain ⟨t', he, hl, ht⟩ := popFront_step h n
    exact ⟨t', he, hl, fun _ => ht⟩
  | replaceBuffer newBuffer newBufferSize => exact replaceBuffer_step h newBuffer newBufferSize

theorem lossStep_preserves {e : LossEvent} (h : Logged t) (he : lossStep t e = some t') :
    Logged t' ∧ (¬ SilentLoss t e → Told t → Told t') := by
  have hdrain : ∀ val, e = .drain val → t.queue.isFull = true := by
    rintro val rfl
    by_contra hfull
    simp only [lossStep, if_neg hfull] at he
    cases he
  obtain ⟨t'', he', hrest⟩ := lossStep_spec h e hdrain
  rw [he] at he'
  cases he'
  exact hrest

theorem drainLoop_run {words rest : List Word} (hfull : t.queue.isFull = true)
    (he : drainLoop t.queue words = some (q', rest)) :
    ∃ read t', words = read ++ rest ∧ run (ofOption lossStep) t (read.map .drain) = .ok t' ∧
      t'.queue = q' := by
  induction words generalizing t with
  | nil => cases he
  | cons w words ih =>
    have hstep : ofOption lossStep t (.drain w) =
        .ok ⟨drainWord t.queue w, arrival t.queue (drainWord t.queue w) w ++ t.past⟩ :=
      Transition.ofOption_ok.mpr (if_pos hfull)
    simp only [drainLoop] at he
    split at he
    · have hfull' : (drainWord t.queue w).isFull = true := by
        unfold drainWord
        split <;> exact hfull
      obtain ⟨read, t', rfl, hrun, hq⟩ := ih (t := ⟨drainWord t.queue w, _⟩) hfull' he
      exact ⟨w :: read, t', rfl, Transition.run_cons_ok.mpr ⟨_, hstep, hrun⟩, hq⟩
    · cases he
      exact ⟨[w], _, rfl, Transition.run_cons_ok.mpr ⟨_, hstep, rfl⟩, rfl⟩

theorem menUiqPopLoop_run {words rest : List Word} (he : menUiqPopLoop t.queue ts words = some (q', rest)) :
    ∃ read t', words = read ++ rest ∧
      run (ofOption lossStep) t (read.map (LossEvent.arrive · ts)) = .ok t' ∧ t'.queue = q' := by
  induction words generalizing t with
  | nil => cases he
  | cons w words ih =>
    simp only [menUiqPopLoop, menUiqPop, Option.bind_eq_bind, Option.bind_eq_some_iff, Option.some.injEq]
      at he
    obtain ⟨⟨q, more⟩, ⟨q₁, hw, heq⟩, hloop⟩ := he
    obtain ⟨rfl, rfl⟩ := Prod.mk.inj heq
    have hstep : ofOption lossStep t (.arrive w ts) = .ok ⟨q₁, arrival t.queue q₁ w ++ t.past⟩ := by
      simp only [Transition.ofOption_ok, lossStep, hw]
      rfl
    split at hloop
    · obtain ⟨read, t', rfl, hrun, hq⟩ := ih (t := ⟨q₁, _⟩) hloop
      exact ⟨w :: read, t', rfl, Transition.run_cons_ok.mpr ⟨_, hstep, hrun⟩, hq⟩
    · cases hloop
      exact ⟨[w], _, rfl, Transition.run_cons_ok.mpr ⟨_, hstep, rfl⟩, rfl⟩

/-- The interrupt handler drains a full queue and lets the words arrive at any other. -/
theorem menUiqPopAll_run {words rest : List Word} {changed : Bool}
    (he : menUiqPopAll t.queue words ts = some (q', rest, changed)) :
    ∃ read es t', words = read ++ rest ∧ (es = read.map .drain ∨ es = read.map (LossEvent.arrive · ts)) ∧
      run (ofOption lossStep) t es = .ok t' ∧ q' = { t'.queue with irqCount := q'.irqCount } := by
  simp only [menUiqPopAll] at he
  split at he
  · rename_i hfull
    simp only [Option.bind_eq_bind, Option.bind_eq_some_iff, Option.some.injEq, Prod.mk.injEq] at he
    obtain ⟨⟨q, rest'⟩, hloop, rfl, rfl, _⟩ := he
    obtain ⟨read, t', hwords, hrun, rfl⟩ := drainLoop_run hfull hloop
    exact ⟨read, _, t', hwords, .inl rfl, hrun, rfl⟩
  · simp only [Option.bind_eq_bind, Option.bind_eq_some_iff, Option.some.injEq, Prod.mk.injEq] at he
    obtain ⟨⟨q, rest'⟩, hloop, rfl, rfl, _⟩ := he
    obtain ⟨read, t', hwords, hrun, rfl⟩ := menUiqPopLoop_run hloop
    exact ⟨read, _, t', hwords, .inr rfl, hrun, rfl⟩

/-- A change of the size is a change of the buffer or nothing. -/
theorem menScaleUiq_run {len : Nat} (hlen : len < 2 ^ 32) {newBuffer : Option (Nat → Word)}
    (he : menScaleUiq t.queue len newBuffer = some q') :
    ∃ es t', run (ofOption lossStep) t es = .ok t' ∧ t'.queue = q' := by
  simp only [menScaleUiq] at he
  split at he
  · exact ⟨[], t, rfl, by simpa using he⟩
  · cases newBuffer with
    | none => exact ⟨[], t, rfl, by simpa using he⟩
    | some newBuffer =>
      have hstep : ofOption lossStep t (.replaceBuffer newBuffer ⟨len / 4, by omega⟩) =
          .ok ⟨q', forget (t.queue.fill - q'.fill) t.past⟩ := by
        have he' : replaceBuffer t.queue newBuffer (len / 4) = some q' := he
        simp only [Transition.ofOption_ok, lossStep, he']
        rfl
      exact ⟨[_], _, Transition.run_cons_ok.mpr ⟨_, hstep, rfl⟩, rfl⟩

/-! ### Runs of a read queue -/

/-- A read queue before its first word. -/
def readQueue (buffer : Nat → Word) (capacity : Capacity) (id : Nat) (protocol : UiqProtocol) : LossLog :=
  { queue := uiqBaseInit buffer capacity id .read protocol 0 }

theorem readQueue_logged (buffer : Nat → Word) (capacity : Capacity) (id : Nat) {protocol : UiqProtocol}
    (hp : protocol ≠ .raw) : Logged (readQueue buffer capacity id protocol) :=
  ⟨(uiqBaseInit_refines buffer capacity.2 id .read protocol 0).ok, hp, rfl⟩

/-- The log of a run tells where the words in the queue come from. -/
theorem readQueue_kept (buffer : Nat → Word) (capacity : Capacity) (id : Nat) {protocol : UiqProtocol}
    (hp : protocol ≠ .raw) {t : LossLog}
    (ht : Transition.Reachable (ofOption lossStep) (readQueue buffer capacity id protocol) t) : Kept t := by
  have hlogged : Logged t := by
    refine Transition.reachable_invariant (fun s e t hs he => ?_) (readQueue_logged buffer capacity id hp) ht
    exact (lossStep_preserves hs (Transition.ofOption_ok.mp he)).1
  exact hlogged.kept

/-- Without a silent loss every word behind a loss is marked. -/
theorem losses_marked (buffer : Nat → Word) (capacity : Capacity) (id : Nat) {protocol : UiqProtocol}
    (hp : protocol ≠ .raw) (es : List LossEvent)
    (hheard : Meets (ofOption lossStep) (fun t e => ¬ SilentLoss t e) (readQueue buffer capacity id protocol) es) :
    Always (ofOption lossStep) (fun t => ¬ Unmarked t.past) (readQueue buffer capacity id protocol) es := by
  have hinit : Logged (readQueue buffer capacity id protocol) ∧
      Told (readQueue buffer capacity id protocol) :=
    ⟨readQueue_logged buffer capacity id hp, fun h => absurd h Bool.false_ne_true, not_unmarked_nil⟩
  have hrun := Transition.always_of_meets (P := fun t => Logged t ∧ Told t)
    (fun s e t hG hs he => ?_) hinit hheard
  · exact hrun.mono fun s hs => hs.2.marked
  · obtain ⟨hl, ht⟩ := lossStep_preserves hs.1 (Transition.ofOption_ok.mp he)
    exact ⟨hl, ht hG hs.2⟩

instance (t : LossLog) (e : LossEvent) : Decidable (SilentLoss t e) :=
  match e with
  | .arrive _ _ => inferInstanceAs (Decidable False)
  | .drain val => inferInstanceAs (Decidable (val &&& UIQ_CONTROL_INVALID = 0 ∧ _ = false))
  | .popFront _ => inferInstanceAs (Decidable False)
  | .replaceBuffer _ _ => inferInstanceAs (Decidable (_ = true ∧ _ = false))

/-- A queue for one word. -/
def oneWord : LossLog := readQueue (fun _ => 0) ⟨1, by decide⟩ 0 .legacy

def noTime : UiqTimestamp := ⟨fun _ => 0⟩

/-- The second word finds the queue full, so the drain behind it is heard. -/
def heardDrain : List LossEvent :=
  [.arrive 1 noTime, .arrive 2 noTime, .drain 0x10003, .popFront 1, .arrive 4 noTime]

theorem losses_marked_heardDrain :
    Always (ofOption lossStep) (fun t => ¬ Unmarked t.past) oneWord heardDrain :=
  losses_marked _ _ _ (by decide) heardDrain
    (Transition.meets_of_check (g := fun t e => decide (¬ SilentLoss t e)) (fun _ _ h => of_decide_eq_true h)
      (by decide +kernel))

/-- The full queue is drained, and the next word that is stored has no marker. -/
def unheardDrain : List LossEvent :=
  [.arrive 1 noTime, .drain 0x10002, .popFront 1, .arrive 3 noTime]

theorem loss_unmarked :
    ¬ Always (ofOption lossStep) (fun t => ¬ Unmarked t.past) oneWord unheardDrain := by
  intro h
  obtain ⟨t, ht, hpast⟩ := Transition.exists_of_check (ofOption lossStep) oneWord unheardDrain
    (fun t => t.past = [.stored 3, .dropped, .stored 1]) (by decide +kernel)
  exact h.of_run ht ⟨[], [.dropped], [], 3, 1, of_decide_eq_true hpast, by simp, by simp, by decide⟩

end MenableDriver
