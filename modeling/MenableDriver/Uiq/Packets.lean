import Mathlib.Data.List.Chain
import Mathlib.Data.List.SplitBy
import MenableDriver.Uiq.Dataloss

/-!
# Event packets in a read queue

The words of a VA event queue come in packets, which end at a word with
`UIQ_CONTROL_EOT`. A run logs every valid word with what the writer stored for it. What
the writer may store for a word depends on the word before it only (`Follows`), so the
law of the packets is a fact about the chain of the words.
-/

namespace MenableDriver

set_option autoImplicit false

open Transition (ofOption run)

/-- `men_get_uiq_timestamp` -/
def menGetUiqTimestamp (tvSec tvNsec : Word) : UiqTimestamp where
  data
    | 0 => tvSec &&& 0xffff
    | 1 => tvSec >>> 16
    | 2 => tvNsec &&& 0xffff
    | 3 => tvNsec >>> 16

/-- A valid word that was offered to the queue, and the words that were stored for it. -/
structure Arrival where
  value : Word
  ts : UiqTimestamp
  stored : List Word

namespace Arrival

def endsPacket (a : Arrival) : Bool := areBitsSet a.value UIQ_CONTROL_EOT

def Lost (a : Arrival) : Prop := a.stored = []

/-- The word is stored, with a marker or without, and with its timestamp or without. -/
def Kept (a : Arrival) : Prop :=
  ∃ v, (v = a.value ∨ v = a.value ||| UIQ_CONTROL_DATALOSS) ∧
    (a.stored = [v] ∨ a.stored = decoratedWords v a.ts)

def Marked (a : Arrival) : Prop :=
  ∃ w ws, a.stored = w :: ws ∧ areBitsSet w UIQ_CONTROL_DATALOSS = true

end Arrival

/-- A read queue, the words that arrived at it and the words that were read from it. -/
structure StreamLog where
  queue : UiqBase
  arrived : List Arrival := []
  returned : List Word := []

inductive StreamOp where
  | write (value tvSec tvNsec : Word)
  | popFront (numWordsToRead : Nat)

def streamStep (t : StreamLog) : StreamOp → Option StreamLog
  | .write value tvSec tvNsec => do
    let ts := menGetUiqTimestamp tvSec tvNsec
    let q ← writeFromGrabber t.queue value ts
    some { t with
      queue := q
      arrived :=
        if areBitsSet value UIQ_CONTROL_INVALID then t.arrived
        else t.arrived ++ [⟨value, ts, q.contents.drop t.queue.fill⟩] }
  | .popFront n => do
    let (ws, q) ← popFront t.queue n
    some { t with queue := q, returned := t.returned ++ ws }

def streamQueue (buffer : Nat → Word) (capacity : Capacity) (id : Nat) (protocol : UiqProtocol) : StreamLog :=
  { queue := uiqBaseInit buffer capacity id .read protocol 0 }

/-- The packets that arrived; the last one may still be open. -/
def packets (arrived : List Arrival) : List (List Arrival) := arrived.splitBy fun a _ => !a.endsPacket

def StoresPrefix (p : List Arrival) : Prop :=
  ∃ kept cut, p = kept ++ cut ∧ (∀ a ∈ kept, a.Kept) ∧ ∀ a ∈ cut, a.Lost

/-- The first packet of which anything is stored behind a loss has its first word stored,
with the marker. -/
def ResumesMarked (ps : List (List Arrival)) : Prop :=
  ∀ before p skipped next after, ps = before ++ p :: (skipped ++ next :: after) → (∃ a ∈ p, a.Lost) →
    (∀ s ∈ skipped, ∀ a ∈ s, a.Lost) → (∃ a ∈ next, ¬ a.Lost) → ∃ a rest, next = a :: rest ∧ a.Marked

/-! ### What is stored for a word -/

variable {q q' : UiqBase} {value : Word} {ts : UiqTimestamp}

theorem flagged_cases (q : UiqBase) (value : Word) :
    flagged q value = value ∨ flagged q value = value ||| UIQ_CONTROL_DATALOSS := by
  unfold flagged
  split
  · exact .inr rfl
  · exact .inl rfl

theorem wordsKept_kept (q : UiqBase) (value : Word) (ts : UiqTimestamp) :
    (⟨value, ts, wordsKept q value ts⟩ : Arrival).Lost ∨
      (⟨value, ts, wordsKept q value ts⟩ : Arrival).Kept := by
  unfold wordsKept
  split_ifs
  · exact .inl rfl
  · exact .inr ⟨_, flagged_cases q value, .inr rfl⟩
  · exact .inr ⟨_, flagged_cases q value, .inl rfl⟩

theorem wordsKept_marked (hlost : q.lastWordsWereLost = true) (value : Word) (ts : UiqTimestamp) :
    (⟨value, ts, wordsKept q value ts⟩ : Arrival).Lost ∨
      (⟨value, ts, wordsKept q value ts⟩ : Arrival).Marked :=
  (wordsKept_flagged q value ts).imp_right fun ⟨w, stamps, hw, hmarked⟩ => ⟨w, stamps, hw, hmarked hlost⟩

/-! ### The log of a run -/

variable {t t' : StreamLog}

/-- The words that were stored have been read or are in the queue. -/
structure Streamed (t : StreamLog) : Prop where
  ok : t.queue.Ok
  protocol : t.queue.readProtocol ≠ .raw
  stored : t.returned ++ t.queue.contents = t.arrived.flatMap Arrival.stored

theorem streamQueue_streamed (buffer : Nat → Word) (capacity : Capacity) (id : Nat) {protocol : UiqProtocol}
    (hp : protocol ≠ .raw) : Streamed (streamQueue buffer capacity id protocol) :=
  ⟨(uiqBaseInit_refines buffer capacity.2 id .read protocol 0).ok, hp, rfl⟩

/-- What is logged for a valid word. -/
def arrivalOf (q : UiqBase) (value : Word) (ts : UiqTimestamp) : Arrival :=
  ⟨value, ts, if discards q then [] else wordsKept q value ts⟩

/-- An operation logs the valid word that it writes, and nothing else. -/
inductive Advances (t t' : StreamLog) (op : StreamOp) : Prop where
  | unchanged (noWord : ∀ value tvSec tvNsec, op = .write value tvSec tvNsec →
        areBitsSet value UIQ_CONTROL_INVALID = true)
      (arrived : t'.arrived = t.arrived)
      (lost : t'.queue.lastWordsWereLost = t.queue.lastWordsWereLost)
      (eop : t'.queue.lastWordWasEop = t.queue.lastWordWasEop)
  | arrives (value tvSec tvNsec : Word) (write : op = .write value tvSec tvNsec)
      (valid : areBitsSet value UIQ_CONTROL_INVALID = false)
      (arrived : t'.arrived = t.arrived ++ [arrivalOf t.queue value (menGetUiqTimestamp tvSec tvNsec)])
      (lost : t'.queue.lastWordsWereLost =
        decide ((arrivalOf t.queue value (menGetUiqTimestamp tvSec tvNsec)).stored = []))
      (eop : t.queue.readProtocol = .vaEvent → t'.queue.lastWordWasEop = areBitsSet value UIQ_CONTROL_EOT)

theorem write_advances (h : Streamed t) (value tvSec tvNsec : Word) :
    ∃ t', streamStep t (.write value tvSec tvNsec) = some t' ∧ Streamed t' ∧
      t'.queue.readProtocol = t.queue.readProtocol ∧ Advances t t' (.write value tvSec tvNsec) := by
  obtain ⟨q, arrived, returned⟩ := t
  have hstored : returned ++ q.contents = arrived.flatMap Arrival.stored := h.stored
  by_cases hinv : areBitsSet value UIQ_CONTROL_INVALID = true
  · refine ⟨⟨q, arrived, returned⟩, ?_, h, rfl, .unchanged (fun v s n he => ?_) rfl rfl rfl⟩
    · simp only [streamStep, writeFromGrabber_invalid h.protocol hinv, hinv]
      rfl
    · cases he
      exact hinv
  · have hval := Bool.eq_false_iff.mpr hinv
    obtain ⟨q', he, hs, heop⟩ := writeFromGrabber_kept h.ok h.protocol hval (menGetUiqTimestamp tvSec tvNsec)
    have hdrop : q'.contents.drop q.fill = (arrivalOf q value (menGetUiqTimestamp tvSec tvNsec)).stored := by
      rw [hs.contents]
      exact List.drop_left' q.length_contents
    refine ⟨{ queue := q'
              arrived := arrived ++ [arrivalOf q value (menGetUiqTimestamp tvSec tvNsec)]
              returned := returned }, ?_, ⟨hs.ok, ?_, ?_⟩, hs.same.readProtocol,
      .arrives value tvSec tvNsec rfl hval rfl hs.lost heop⟩
    · simp only [streamStep, he, Option.bind_eq_bind, Option.bind_some, hdrop, hval]
      rfl
    · rw [hs.same.readProtocol]
      exact h.protocol
    · rw [hs.contents, ← List.append_assoc, hstored, List.flatMap_append]
      simp [arrivalOf]

theorem popFront_advances (h : Streamed t) (n : Nat) :
    ∃ t', streamStep t (.popFront n) = some t' ∧ Streamed t' ∧
      t'.queue.readProtocol = t.queue.readProtocol ∧ Advances t t' (.popFront n) := by
  obtain ⟨q, arrived, returned⟩ := t
  refine ⟨⟨popped q (min n q.fill), arrived, returned ++ q.contents.take n⟩,
    by simp only [streamStep, popFront_eq h.ok]; rfl, ⟨popped_ok h.ok n, h.protocol, ?_⟩, rfl,
    .unchanged (by simp) rfl rfl rfl⟩
  change returned ++ q.contents.take n ++ (popped q (min n q.fill)).contents = _
  rw [popped_contents (Nat.min_le_right ..), ← h.stored, ← q.length_contents, ← List.drop_eq_drop_min,
    List.append_assoc, List.take_append_drop]

theorem streamStep_advances (h : Streamed t) (op : StreamOp) :
    ∃ t', streamStep t op = some t' ∧ Streamed t' ∧ t'.queue.readProtocol = t.queue.readProtocol ∧
      Advances t t' op := by
  cases op with
  | write value tvSec tvNsec => exact write_advances h value tvSec tvNsec
  | popFront n => exact popFront_advances h n

/-! ### The packets of a VA event queue -/

/-- What the next word may find stored: behind a lost word nothing or, when the lost word
ended its packet, a word with the marker. -/
def Follows (a b : Arrival) : Prop := a.Lost → b.Lost ∨ a.endsPacket = true ∧ b.Marked

/-- The flags of the queue describe the last word, and every word follows the one before. -/
structure Packeted (t : StreamLog) : Prop where
  streamed : Streamed t
  protocol : t.queue.readProtocol = .vaEvent
  last : ∀ a ∈ t.arrived.getLast?, (a.Lost → t.queue.lastWordsWereLost = true) ∧
    t.queue.lastWordWasEop = a.endsPacket
  chain : t.arrived.IsChain Follows
  kept : ∀ a ∈ t.arrived, a.Lost ∨ a.Kept

theorem arrivalOf_follows {a : Arrival} (hp : q.readProtocol = .vaEvent)
    (hlost : a.Lost → q.lastWordsWereLost = true) (heop : q.lastWordWasEop = a.endsPacket) (value : Word)
    (ts : UiqTimestamp) : Follows a (arrivalOf q value ts) := by
  intro ha
  unfold arrivalOf
  split_ifs with hd
  · exact .inl rfl
  · have hend : a.endsPacket = true := by
      by_contra hne
      exact hd ⟨hp, hlost ha, heop.trans (Bool.eq_false_iff.mpr hne)⟩
    exact (wordsKept_marked (hlost ha) value ts).imp_right fun hm => ⟨hend, hm⟩

theorem arrivalOf_kept (q : UiqBase) (value : Word) (ts : UiqTimestamp) :
    (arrivalOf q value ts).Lost ∨ (arrivalOf q value ts).Kept := by
  unfold arrivalOf
  split_ifs
  · exact .inl rfl
  · exact wordsKept_kept q value ts

theorem streamStep_packeted {op : StreamOp} (h : Packeted t) (he : streamStep t op = some t') :
    Packeted t' := by
  obtain ⟨t'', he', hs, hp, ha⟩ := streamStep_advances h.streamed op
  rw [he] at he'
  cases he'
  cases ha with
  | unchanged _ harr hl heop =>
    exact ⟨hs, hp.trans h.protocol, by rw [harr, hl, heop]; exact h.last,
      by rw [harr]; exact h.chain, by rw [harr]; exact h.kept⟩
  | arrives value tvSec tvNsec _ hval harr hl heop =>
    have hlast : ∀ a ∈ t'.arrived.getLast?, a =
        arrivalOf t.queue value (menGetUiqTimestamp tvSec tvNsec) := by
      rw [harr]
      simp
    refine ⟨hs, hp.trans h.protocol, fun a ha => ?_, ?_, fun a ha => ?_⟩
    · rw [hlast a ha, hl, heop h.protocol]
      exact ⟨fun hlost => decide_eq_true (p := _ = []) hlost, rfl⟩
    · rw [harr]
      refine h.chain.append (.singleton _) fun a ha b hb => ?_
      cases Option.mem_some.mp hb
      exact arrivalOf_follows h.protocol (h.last a ha).1 (h.last a ha).2 _ _
    · rw [harr, List.mem_append, List.mem_singleton] at ha
      rcases ha with ha | rfl
      · exact h.kept a ha
      · exact arrivalOf_kept ..

variable {p : List Arrival}

/-- Where a lost word is followed by lost words only, the words that are kept come first. -/
theorem storesPrefix_of_chain (hc : p.IsChain fun a b => a.Lost → b.Lost) (hk : ∀ a ∈ p, a.Lost ∨ a.Kept) :
    StoresPrefix p := by
  induction p with
  | nil => exact ⟨[], [], rfl, by simp, by simp⟩
  | cons a p ih =>
    rcases hk a List.mem_cons_self with ha | ha
    · exact ⟨[], a :: p, rfl, by simp, List.forall_mem_cons.mpr ⟨ha,
        hc.cons_induction Arrival.Lost p (fun _ _ h ha => h ha) ha⟩⟩
    · obtain ⟨kept, cut, rfl, hkept, hcut⟩ := ih hc.tail fun b hb => hk b (List.mem_cons_of_mem a hb)
      exact ⟨a :: kept, cut, rfl, List.forall_mem_cons.mpr ⟨ha, hkept⟩, hcut⟩

theorem Arrival.Kept.not_lost {a : Arrival} (h : a.Kept) : ¬ a.Lost := by
  obtain ⟨v, _, hs | hs⟩ := h <;> simp [Arrival.Lost, hs, decoratedWords]

theorem StoresPrefix.last_lost (h : StoresPrefix p) (hcut : ∃ a ∈ p, a.Lost) : ∃ a ∈ p.getLast?, a.Lost := by
  obtain ⟨kept, cut, rfl, hkept, hlost⟩ := h
  obtain ⟨a, ha, hal⟩ := hcut
  have hmem : a ∈ cut := (List.mem_append.mp ha).resolve_left fun hk => (hkept a hk).not_lost hal
  obtain ⟨b, hb⟩ := Option.isSome_iff_exists.mp (List.getLast?_isSome.mpr (List.ne_nil_of_mem hmem))
  exact ⟨b, by rw [List.getLast?_append, hb]; rfl, hlost b (List.mem_of_getLast? hb)⟩

theorem StoresPrefix.head_kept (h : StoresPrefix p) (hstored : ∃ a ∈ p, ¬ a.Lost) :
    ∃ a rest, p = a :: rest ∧ a.Kept := by
  obtain ⟨kept, cut, rfl, hkept, hlost⟩ := h
  obtain ⟨a, ha, hal⟩ := hstored
  have hmem : a ∈ kept := (List.mem_append.mp ha).resolve_right fun hc => hal (hlost a hc)
  cases kept with
  | nil => cases hmem
  | cons b kept => exact ⟨b, kept ++ cut, rfl, hkept b List.mem_cons_self⟩

/-- The last word of a packet and the first one of the next. -/
def Adjoin (p r : List Arrival) : Prop := ∀ a ∈ p.getLast?, ∀ b ∈ r.head?, Follows a b

theorem marked_of_lost {next after : List Arrival} {skipped rest : List (List Arrival)}
    (hne : [] ∉ skipped) (hc : (p :: (skipped ++ next :: rest)).IsChain Adjoin)
      (hp : ∃ a ∈ p.getLast?, a.Lost)
    (hskip : ∀ s ∈ skipped, ∀ a ∈ s, a.Lost) {b : Arrival} (hb : next = b :: after) (hk : b.Kept) :
    b.Marked := by
  induction skipped generalizing p with
  | nil =>
    obtain ⟨a, ha, hal⟩ := hp
    obtain ⟨hadj, _⟩ := List.isChain_cons_cons.mp hc
    exact ((hadj a ha b (by rw [hb]; rfl) hal).resolve_left hk.not_lost).2
  | cons s skipped ih =>
    obtain ⟨_, hc⟩ := List.isChain_cons_cons.mp hc
    have hs : s ≠ [] := fun h => hne (h ▸ List.mem_cons_self)
    obtain ⟨a, ha⟩ := Option.isSome_iff_exists.mp (List.getLast?_isSome.mpr hs)
    exact ih (fun h => hne (List.mem_cons_of_mem s h)) hc
      ⟨a, ha, hskip s List.mem_cons_self a (List.mem_of_getLast? ha)⟩
      fun r hr => hskip r (List.mem_cons_of_mem s hr)

theorem Packeted.packets_follow (h : Packeted t) :
    (∀ p ∈ packets t.arrived, p.IsChain Follows) ∧ (packets t.arrived).IsChain Adjoin := by
  apply (List.isChain_flatten (List.nil_notMem_splitBy _ _)).mp
  rw [List.flatten_splitBy]
  exact h.chain

theorem Packeted.storesPrefix (h : Packeted t) : ∀ p ∈ packets t.arrived, StoresPrefix p := by
  intro p hp
  have hopen : p.IsChain fun a _ => (!a.endsPacket) = true := List.isChain_of_mem_splitBy hp
  refine storesPrefix_of_chain ?_ fun a ha => h.kept a ?_
  · refine List.isChain_iff_forall_rel_of_append_cons_cons.mpr fun a b l₁ l₂ he ha => ?_
    have hfollows : Follows a b :=
      List.isChain_iff_forall_rel_of_append_cons_cons.mp (h.packets_follow.1 p hp) he
    have hmid := List.isChain_iff_forall_rel_of_append_cons_cons.mp hopen he
    exact (hfollows ha).resolve_right fun hend => by simp [hend.1] at hmid
  · rw [← List.flatten_splitBy (fun a _ => !a.endsPacket) t.arrived]
    exact List.mem_flatten_of_mem hp ha

theorem Packeted.resumesMarked (h : Packeted t) : ResumesMarked (packets t.arrived) := by
  intro before p skipped next after hps hcut hskip hstored
  have hmem : ∀ r ∈ p :: (skipped ++ next :: after), r ∈ packets t.arrived := by
    intro r hr
    rw [hps]
    exact List.mem_append_right before hr
  have hchain := h.packets_follow.2
  rw [hps] at hchain
  obtain ⟨a, rest, hnext, ha⟩ := (h.storesPrefix next (hmem next (by simp))).head_kept hstored
  refine ⟨a, rest, hnext, marked_of_lost (fun hs => ?_) hchain.right_of_append
    ((h.storesPrefix p (hmem p List.mem_cons_self)).last_lost hcut) hskip hnext ha⟩
  exact List.nil_notMem_splitBy _ _ (hmem [] (by simp [hs]))

/-- In every run the stored words of a packet are a prefix of it, and what is stored next
after a loss is the first word of a later packet, with the marker. -/
theorem packet_law (buffer : Nat → Word) (capacity : Capacity) (id : Nat) (ops : List StreamOp) :
    ∃ t, run (ofOption streamStep) (streamQueue buffer capacity id .vaEvent) ops = .ok t ∧
      t.returned ++ t.queue.contents = t.arrived.flatMap Arrival.stored ∧
      (∀ p ∈ packets t.arrived, StoresPrefix p) ∧ ResumesMarked (packets t.arrived) := by
  have hinit : Packeted (streamQueue buffer capacity id .vaEvent) :=
    ⟨streamQueue_streamed buffer capacity id (by decide), rfl, by simp [streamQueue],
      .nil, by simp [streamQueue]⟩
  have hstep : ∀ s e t, Packeted s → ofOption streamStep s e = .ok t → Packeted t :=
    fun s e t hs he => streamStep_packeted hs (Transition.ofOption_ok.mp he)
  obtain ⟨t, ht⟩ := Transition.exists_run (G := fun _ _ => True)
    (fun s e hs => by
      obtain ⟨s', he, _⟩ := streamStep_advances hs.streamed e
      exact ⟨s', Transition.ofOption_ok.mpr he⟩)
    (fun s e t _ => hstep s e t) hinit (Transition.meets_true _ ops)
  have h : Packeted t := Transition.reachable_invariant hstep hinit ⟨ops, ht⟩
  exact ⟨t, ht, h.streamed.stored, h.storesPrefix, h.resumesMarked⟩

end MenableDriver
