import Mathlib.Data.Nat.ModEq
import MenableDriver.Uiq.Base

/-!
# The ring of a queue is a bounded queue

Between two calls the fill level and the read index of a queue stay inside its buffer
(`UiqBase.Ok`), and the words from the read index on are the items of a bounded queue
(`Refines`). Every function of the ring does to the words what the operation of the
bounded queue does to its items.
-/

namespace MenableDriver

set_option autoImplicit false

namespace UiqBase

structure Ok (q : UiqBase) : Prop where
  capacity : q.capacity < 2 ^ 30
  fill : q.fill ≤ q.capacity
  readIndex : q.readIndex < q.capacity ∨ q.readIndex = 0

def contents (q : UiqBase) : List Word := Ring.window q.data q.capacity q.readIndex q.fill

@[simp] theorem length_contents (q : UiqBase) : q.contents.length = q.fill := Ring.length_window

end UiqBase

structure Refines (q : UiqBase) (f : Fifo Word) : Prop where
  ok : q.Ok
  cap : q.capacity = f.cap
  contents : q.contents = f.items

variable {q q' : UiqBase} {f : Fifo Word}

theorem Refines.fill (h : Refines q f) : q.fill = f.items.length := by
  rw [← h.contents, q.length_contents]

theorem Refines.room (h : Refines q f) : q.capacity - q.fill = f.room := by
  rw [h.cap, h.fill, Fifo.room]

theorem getFreeCapacity_eq (h : q.Ok) : q.getFreeCapacity = q.capacity - q.fill :=
  Counter.sub_eq h.fill (Nat.lt_trans h.capacity (by decide))

/-- The loop of `push_back` when everything fits. -/
theorem pushLoop_eq (h : q.Ok) {ws : List Word} (hw : q.fill + ws.length ≤ q.capacity) :
    pushLoop q ws = some { q with
      data := Ring.fill q.data q.capacity (q.readIndex + q.fill) ws
      fill := q.fill + ws.length } := by
  induction ws generalizing q with
  | nil => rfl
  | cons w ws ih =>
    have hcap := h.capacity
    have hri := h.readIndex
    simp only [List.length_cons] at hw ⊢
    have hadd : Counter.add q.readIndex q.fill = q.readIndex + q.fill :=
      Counter.add_eq (by unfold Counter.wrap; omega)
    have hinc : Counter.inc q.fill = q.fill + 1 := Counter.inc_eq (by unfold Counter.wrap; omega)
    have hlt : (q.readIndex + q.fill) % q.capacity < q.capacity := Nat.mod_lt _ (by omega)
    simp only [pushLoop, hadd, hinc, if_pos hlt]
    have hok : ({ q with
        data := Function.update q.data ((q.readIndex + q.fill) % q.capacity) w
        fill := q.fill + 1 } : UiqBase).Ok := ⟨hcap, by dsimp only; omega, hri⟩
    rw [ih hok (by dsimp only; omega)]
    simp only [Ring.fill, Nat.add_assoc, Nat.add_comm 1]

/-- What `push_back` leaves behind, next to the words. -/
def pushed (q : UiqBase) (data : List Word) (n : Nat) : UiqBase :=
  { q with
    data := Ring.fill q.data q.capacity (q.readIndex + q.fill) (data.take n)
    fill := q.fill + n
    lastWordsWereLost := decide (n < data.length)
    lostWordsCount := if n < data.length then Counter.add q.lostWordsCount (data.length - n)
      else q.lostWordsCount }

theorem pushBack_eq (h : q.Ok) (data : List Word) :
    pushBack q data = some (pushed q data (min data.length (q.capacity - q.fill)),
      min data.length (q.capacity - q.fill)) := by
  have hfill := h.fill
  unfold pushBack
  simp only [getFreeCapacity_eq h]
  have hlen : (data.take (min data.length (q.capacity - q.fill))).length =
      min data.length (q.capacity - q.fill) := by
    rw [List.length_take]
    omega
  rw [pushLoop_eq h (by omega)]
  simp only [Option.bind_eq_bind, Option.bind_some, hlen, pushed]
  by_cases hlost : q.capacity - q.fill < data.length
  · have hmin : min data.length (q.capacity - q.fill) = q.capacity - q.fill := by omega
    rw [hmin, if_pos hlost, if_neg (by omega), if_pos hlost, decide_eq_true hlost]
    rfl
  · have hmin : min data.length (q.capacity - q.fill) = data.length := by omega
    rw [hmin, if_neg hlost, if_pos rfl, if_neg (by omega), decide_eq_false (by omega)]

theorem pushed_contents (h : q.Ok) (data : List Word) {n : Nat}
    (hn : n = min data.length (q.capacity - q.fill)) :
    (pushed q data n).contents = q.contents ++ data.take n := by
  have hfill := h.fill
  have hlen : (data.take n).length = n := by
    rw [List.length_take]
    omega
  have hw := Ring.window_fill (f := q.data) (r := q.readIndex) (data.take n)
    (show q.fill + (data.take n).length ≤ q.capacity by omega)
  rw [hlen] at hw
  exact hw

theorem pushed_ok (h : q.Ok) (data : List Word) {n : Nat} (hn : n = min data.length (q.capacity - q.fill)) :
    (pushed q data n).Ok := by
  have hfill := h.fill
  refine ⟨h.capacity, ?_, h.readIndex⟩
  change q.fill + n ≤ q.capacity
  omega

theorem pushBack_refines (h : Refines q f) (data : List Word) :
    pushBack q data = some (pushed q data (f.taken data), f.taken data) ∧
      Refines (pushed q data (f.taken data)) (f.push data) := by
  have hn : f.taken data = min data.length (q.capacity - q.fill) := by rw [h.room, Fifo.taken]
  refine ⟨by rw [pushBack_eq h.ok, hn], pushed_ok h.ok data hn, h.cap, ?_⟩
  rw [pushed_contents h.ok data hn, h.contents, Fifo.push, Fifo.taken, Nat.min_comm, List.take_eq_take_min,
    Nat.min_comm]
  simp [List.take_eq_take_min]

theorem popLoop_eq (hcap : q.capacity < 2 ^ 30) (hri : q.readIndex < q.capacity) (n : Nat) :
    popLoop q n = some (Ring.window q.data q.capacity q.readIndex n,
      { q with readIndex := (q.readIndex + n) % q.capacity }) := by
  induction n generalizing q with
  | zero => simp [popLoop, Nat.mod_eq_of_lt hri]
  | succ n ih =>
    have hinc : Counter.inc q.readIndex = q.readIndex + 1 := Counter.inc_eq (by unfold Counter.wrap; omega)
    have hlt : (q.readIndex + 1) % q.capacity < q.capacity := Nat.mod_lt _ (by omega)
    have hrest := ih (q := { q with readIndex := (q.readIndex + 1) % q.capacity }) hcap hlt
    rw [popLoop, if_pos hri, hinc, hrest]
    simp only [Option.bind_eq_bind, Option.bind_some, Option.some.injEq, Prod.mk.injEq]
    constructor
    · rw [Ring.window_mod, Ring.window_cons, Nat.mod_eq_of_lt hri]
    · rw [Nat.mod_add_mod, Nat.add_assoc, Nat.add_comm 1]

/-- What `pop_front` leaves behind. -/
def popped (q : UiqBase) (n : Nat) : UiqBase :=
  { q with readIndex := (q.readIndex + n) % q.capacity, fill := q.fill - n }

theorem popFront_eq (h : q.Ok) (n : Nat) :
    popFront q n = some (q.contents.take n, popped q (min n q.fill)) := by
  have hcap := h.capacity
  have hfill := h.fill
  have htake : q.contents.take n = Ring.window q.data q.capacity q.readIndex (min n q.fill) := by
    rw [List.take_eq_take_min, q.length_contents]
    exact Ring.take_window (Nat.min_le_right ..)
  have hsub : Counter.sub q.fill (min n q.fill) = q.fill - min n q.fill :=
    Counter.sub_eq (Nat.min_le_right ..) (by unfold Counter.wrap; omega)
  simp only [popFront, htake]
  rcases Nat.eq_zero_or_pos q.capacity with h0 | hpos
  · have hfill0 : q.fill = 0 := by omega
    have hri : q.readIndex = 0 := by
      have := h.readIndex
      omega
    simp [popLoop, popped, hri, hfill0, Counter.sub, Counter.wrap]
  · have hri : q.readIndex < q.capacity := by
      have := h.readIndex
      omega
    rw [popLoop_eq hcap hri]
    simp only [Option.bind_eq_bind, Option.bind_some, hsub, popped]

theorem popped_contents {n : Nat} (hn : n ≤ q.fill) :
    (popped q n).contents = q.contents.drop n := by
  have hdrop : (Ring.window q.data q.capacity q.readIndex q.fill).drop n =
      Ring.window q.data q.capacity (q.readIndex + n) (q.fill - n) := Ring.drop_window hn
  rw [UiqBase.contents, UiqBase.contents, hdrop]
  exact Ring.window_mod

theorem popFront_refines (h : Refines q f) (n : Nat) :
    popFront q n = some ((f.pop n).1, popped q (min n q.fill)) ∧
      Refines (popped q (min n q.fill)) (f.pop n).2 := by
  have hfill := h.ok.fill
  refine ⟨by rw [popFront_eq h.ok, h.contents, Fifo.pop], ⟨h.ok.capacity, ?_, ?_⟩, h.cap, ?_⟩
  · change q.fill - min n q.fill ≤ q.capacity
    omega
  · change (q.readIndex + min n q.fill) % q.capacity < q.capacity ∨ (q.readIndex + min n q.fill) %
      q.capacity = 0
    rcases Nat.eq_zero_or_pos q.capacity with h0 | hpos
    · have := h.ok.readIndex
      right
      rw [h0, Nat.mod_zero]
      omega
    · exact .inl (Nat.mod_lt _ hpos)
  · rw [popped_contents (Nat.min_le_right ..), h.contents, h.fill, Fifo.pop, ← List.drop_eq_drop_min]

/-- A change of the buffer copies the oldest words in two pieces at most. -/
theorem replaceBuffer_eq (h : q.Ok) (newBuffer : Nat → Word) (newBufferSize : Nat) :
    ∃ buffer, replaceBuffer q newBuffer newBufferSize = some { q with
        lostWordsCount := if min q.fill newBufferSize < q.fill then
          Counter.add q.lostWordsCount (q.fill - min q.fill newBufferSize) else q.lostWordsCount
        data := buffer
        fill := min q.fill newBufferSize
        readIndex := 0
        capacity := newBufferSize } ∧
      ∀ i < min q.fill newBufferSize, buffer i = q.data ((q.readIndex + i) % q.capacity) := by
  have hcap := h.capacity
  have hfill := h.fill
  have hri : q.readIndex ≤ q.capacity := by
    have := h.readIndex
    omega
  have hsub : Counter.sub q.capacity q.readIndex = q.capacity - q.readIndex :=
    Counter.sub_eq hri (by unfold Counter.wrap; omega)
  generalize hk : min q.fill newBufferSize = k
  generalize hb : min (q.capacity - q.readIndex) k = b
  have hcopied : ∀ n, n ≤ q.capacity → wordsCopied n = n := by
    intro n hn
    unfold wordsCopied Counter.wrap
    omega
  have hfirst : copyMem newBuffer newBufferSize 0 q.data q.capacity q.readIndex (wordsCopied b) =
      some fun i => if i < b then q.data (q.readIndex + i) else newBuffer i := by
    rw [hcopied b (by omega), copyMem, if_pos (by omega)]
    simp
  simp only [replaceBuffer, hk, hsub, hb, hfirst, Option.bind_eq_bind, Option.bind_some]
  by_cases hlt : b < k
  · have hwrap : b = q.capacity - q.readIndex := by omega
    rw [if_pos hlt, hcopied (k - b) (by omega), copyMem, if_pos (by omega)]
    refine ⟨_, rfl, fun i hi => ?_⟩
    by_cases hib : i < b
    · rw [if_neg (by omega), if_pos hib, Nat.mod_eq_of_lt (by omega)]
    · rw [if_pos (by omega), Nat.mod_eq_sub_mod (by omega), Nat.mod_eq_of_lt (by omega)]
      congr 1
      omega
  · rw [if_neg hlt]
    refine ⟨_, rfl, fun i hi => ?_⟩
    rw [if_pos (by omega), Nat.mod_eq_of_lt (by omega)]

theorem replaceBuffer_refines (h : Refines q f) (newBuffer : Nat → Word) {newBufferSize : Nat}
    (hnew : newBufferSize < 2 ^ 30) :
    ∃ q', replaceBuffer q newBuffer newBufferSize = some q' ∧ Refines q' (f.resize newBufferSize) ∧
      q'.lastWordsWereLost = q.lastWordsWereLost ∧ q'.lastWordWasEop = q.lastWordWasEop ∧
      q'.readProtocol = q.readProtocol ∧
      q'.lostWordsCount = if min q.fill newBufferSize < q.fill then
        Counter.add q.lostWordsCount (q.fill - min q.fill newBufferSize) else q.lostWordsCount := by
  obtain ⟨buffer, he, hbuf⟩ := replaceBuffer_eq h.ok newBuffer newBufferSize
  refine ⟨_, he, ⟨⟨hnew, Nat.min_le_right .., .inr rfl⟩, rfl, ?_⟩, rfl, rfl, rfl, rfl⟩
  change Ring.window buffer newBufferSize 0 (min q.fill newBufferSize) = f.items.take newBufferSize
  rw [← h.contents, List.take_eq_take_min, q.length_contents, Nat.min_comm newBufferSize, UiqBase.contents,
    Ring.take_window (Nat.min_le_left ..)]
  refine List.map_congr_left fun i hi => ?_
  have hlt := List.mem_range.mp hi
  rw [Nat.zero_add, Nat.mod_eq_of_lt (by omega)]
  exact hbuf i hlt

theorem reset_refines (h : Refines q f) : Refines (reset q) f.clear :=
  ⟨⟨h.ok.capacity, Nat.zero_le _, .inr rfl⟩, h.cap, rfl⟩

theorem uiqBaseInit_refines (buffer : Nat → Word) {capacity : Nat} (hcap : capacity < 2 ^ 30) (id : Nat)
    (type : UiqType) (protocol : UiqProtocol) (depth : Nat) :
    Refines (uiqBaseInit buffer capacity id type protocol depth) (Fifo.empty capacity) :=
  ⟨⟨hcap, Nat.zero_le _, .inr rfl⟩, rfl, rfl⟩

/-- The sizes of a buffer, in words: its bytes are counted in an `unsigned int`. -/
abbrev Capacity := { n : Nat // n < 2 ^ 30 }

inductive UiqOp where
  | pushBack (data : List Word)
  | popFront (numWordsToRead : Nat)
  | replaceBuffer (newBuffer : Nat → Word) (newBufferSize : Capacity)
  | reset

/-- A queue with the words `pop_front` has returned, and the numbers of words that were
offered and popped since the last reset. -/
structure UiqTrace where
  queue : UiqBase
  returned : List (List Word) := []
  offered : Nat := 0
  popped : Nat := 0

def uiqStep (t : UiqTrace) : UiqOp → Option UiqTrace
  | .pushBack data => do
    let (q, _) ← pushBack t.queue data
    some { t with queue := q, offered := t.offered + data.length }
  | .popFront n => do
    let (ws, q) ← popFront t.queue n
    some { t with queue := q, returned := t.returned ++ [ws], popped := t.popped + ws.length }
  | .replaceBuffer newBuffer newBufferSize => do
    let q ← replaceBuffer t.queue newBuffer newBufferSize
    some { t with queue := q }
  | .reset => some { t with queue := reset t.queue, offered := 0, popped := 0 }

structure FifoTrace where
  fifo : Fifo Word
  returned : List (List Word) := []

/-- The same operation on the bounded queue. -/
def fifoStep (t : FifoTrace) : UiqOp → FifoTrace
  | .pushBack data => { t with fifo := t.fifo.push data }
  | .popFront n => { fifo := (t.fifo.pop n).2, returned := t.returned ++ [(t.fifo.pop n).1] }
  | .replaceBuffer _ newBufferSize => { t with fifo := t.fifo.resize newBufferSize }
  | .reset => { t with fifo := t.fifo.clear }

/-- Every word that was offered was popped, is stored or was counted as lost. -/
def Tallied (t : UiqTrace) : Prop :=
  t.offered ≡ t.popped + t.queue.fill + t.queue.lostWordsCount [MOD 2 ^ 32]

structure Simulates (t : UiqTrace) (a : FifoTrace) : Prop where
  refines : Refines t.queue a.fifo
  returned : t.returned = a.returned
  tallied : Tallied t

theorem modEq_of_eq {a b n : Nat} (h : a = b) : a ≡ b [MOD n] := h ▸ Nat.ModEq.refl a

theorem add_modEq (a b : Nat) : Counter.add a b ≡ a + b [MOD 2 ^ 32] := Nat.mod_modEq (a + b) _

theorem uiqStep_simulates {t : UiqTrace} {a : FifoTrace} (h : Simulates t a) (op : UiqOp) :
    ∃ t', uiqStep t op = some t' ∧ Simulates t' (fifoStep a op) := by
  have htally : t.offered ≡ t.popped + t.queue.fill + t.queue.lostWordsCount [MOD 2 ^ 32] := h.tallied
  cases op with
  | pushBack data =>
    obtain ⟨he, hr⟩ := pushBack_refines h.refines data
    have hle := a.fifo.taken_le data
    refine ⟨{ t with
      queue := pushed t.queue data (a.fifo.taken data)
      offered := t.offered + data.length }, by simp only [uiqStep, he]; rfl, hr, h.returned, ?_⟩
    change t.offered + data.length ≡ t.popped + (t.queue.fill + a.fifo.taken data) +
      (if a.fifo.taken data < data.length then
        Counter.add t.queue.lostWordsCount (data.length - a.fifo.taken data)
        else t.queue.lostWordsCount) [MOD 2 ^ 32]
    split_ifs with hlt
    · refine ((htally.add_right data.length).trans ?_).trans ((add_modEq _ _).symm.add_left _)
      exact modEq_of_eq (by omega)
    · exact (htally.add_right data.length).trans (modEq_of_eq (by omega))
  | popFront n =>
    obtain ⟨he, hr⟩ := popFront_refines h.refines n
    refine ⟨{ t with
      queue := popped t.queue (min n t.queue.fill)
      returned := t.returned ++ [(a.fifo.pop n).1]
      popped := t.popped + (a.fifo.pop n).1.length }, by simp only [uiqStep, he]; rfl, hr,
      by rw [fifoStep, h.returned], ?_⟩
    have hfill := h.refines.fill
    change t.offered ≡ t.popped + (a.fifo.items.take n).length + (t.queue.fill - min n t.queue.fill) +
      t.queue.lostWordsCount [MOD 2 ^ 32]
    refine htally.trans (modEq_of_eq ?_)
    rw [List.length_take]
    omega
  | replaceBuffer newBuffer newBufferSize =>
    obtain ⟨q', he, hr, _, _, _, hlost⟩ := replaceBuffer_refines h.refines newBuffer newBufferSize.2
    refine ⟨{ t with queue := q' }, by simp only [uiqStep, he]; rfl, hr, h.returned, ?_⟩
    have hfill : q'.fill = min t.queue.fill newBufferSize := by
      rw [hr.fill, h.refines.fill, Fifo.resize, List.length_take, Nat.min_comm]
    change t.offered ≡ t.popped + q'.fill + q'.lostWordsCount [MOD 2 ^ 32]
    rw [hfill, hlost]
    split_ifs with hlt
    · refine (htally.trans ?_).trans ((add_modEq _ _).symm.add_left _)
      exact modEq_of_eq (by omega)
    · exact htally.trans (modEq_of_eq (by omega))
  | reset => exact ⟨_, rfl, reset_refines h.refines, h.returned, Nat.ModEq.refl _⟩

theorem uiqRun_simulates {t : UiqTrace} {a : FifoTrace} (h : Simulates t a) (ops : List UiqOp) :
    ∃ t', ops.foldlM uiqStep t = some t' ∧ Simulates t' (ops.foldl fifoStep a) := by
  induction ops generalizing t a with
  | nil => exact ⟨t, rfl, h⟩
  | cons op ops ih =>
    obtain ⟨t', he, h'⟩ := uiqStep_simulates h op
    obtain ⟨t'', he'', h''⟩ := ih h'
    refine ⟨t'', ?_, h''⟩
    rw [List.foldlM_cons, he]
    exact he''

/-- A queue of any capacity refines the bounded queue over every sequence of operations. -/
theorem uiq_refines_fifo (buffer : Nat → Word) (capacity : Capacity) (id : Nat) (type : UiqType)
    (protocol : UiqProtocol) (depth : Nat) (ops : List UiqOp) :
    ∃ t, ops.foldlM uiqStep { queue := uiqBaseInit buffer capacity id type protocol depth } = some t ∧
      t.queue.fill ≤ t.queue.capacity ∧ (t.queue.readIndex < t.queue.capacity ∨ t.queue.readIndex = 0) ∧
      t.queue.contents = (ops.foldl fifoStep { fifo := Fifo.empty capacity }).fifo.items ∧
      t.queue.capacity = (ops.foldl fifoStep { fifo := Fifo.empty capacity }).fifo.cap ∧
      t.returned = (ops.foldl fifoStep { fifo := Fifo.empty capacity }).returned ∧
      t.offered ≡ t.popped + t.queue.fill + t.queue.lostWordsCount [MOD 2 ^ 32] := by
  have hinit : Simulates { queue := uiqBaseInit buffer capacity id type protocol depth }
      { fifo := Fifo.empty capacity } :=
    ⟨uiqBaseInit_refines buffer capacity.2 id type protocol depth, rfl, Nat.ModEq.refl _⟩
  obtain ⟨t, he, h⟩ := uiqRun_simulates hinit ops
  have hok := h.refines.ok
  exact ⟨t, he, hok.fill, hok.readIndex, h.refines.contents, h.refines.cap, h.returned, h.tallied⟩

end MenableDriver
