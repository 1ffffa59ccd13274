import MenableDriver.Uiq.Packets

/-!
# Timestamps in the stream of a read queue

A word with `UIQ_CONTROL_INSERT_TS` announces the four words of a timestamp behind it.
A reader that goes by this flag (`parseEvents`) has to find the words that arrived, with
their timestamps. It does so as long as no such word is stored where there is room for
the word but not for its timestamp.
-/

namespace MenableDriver

set_option autoImplicit false

open Transition (ofOption Meets Always)

/-- The event words of a stream with the timestamp words that they announce. -/
def parseEvents : List Word → Option (List (Word × List Word))
  | [] => some []
  | w :: ws =>
    if areBitsSet w UIQ_CONTROL_INSERT_TS then
      match ws with
      | a :: b :: c :: d :: ws => (parseEvents ws).map ((w, [a, b, c, d]) :: ·)
      | _ => none
    else (parseEvents ws).map ((w, []) :: ·)

namespace Arrival

/-- The word that was stored, and what was stored behind it. -/
def event? (a : Arrival) : Option (Word × List Word) :=
  match a.stored with
  | [] => none
  | w :: stamps => some (w, stamps)

/-- The end of transmission of a word with a timestamp is on the last word of it. -/
def EotLast (a : Arrival) : Prop :=
  ∀ w s₀ s₁ s₂ s₃, a.stored = [w, s₀, s₁, s₂, s₃] →
    (∀ v ∈ [w, s₀, s₁, s₂], areBitsSet v UIQ_CONTROL_EOT = false) ∧
      areBitsSet s₃ UIQ_CONTROL_EOT = areBitsSet a.value UIQ_CONTROL_EOT

end Arrival

/-- Everything that was stored so far parses into the words that arrived. -/
structure Framed (t : StreamLog) : Prop where
  parses : parseEvents (t.returned ++ t.queue.contents) = some (t.arrived.filterMap Arrival.event?)
  eotLast : ∀ a ∈ t.arrived, a.EotLast

/-- A word that asks for a timestamp is stored where one to four words are free. -/
def StoresBare (t : StreamLog) : StreamOp → Prop
  | .write value _ _ =>
    areBitsSet value UIQ_CONTROL_INVALID = false ∧ areBitsSet value UIQ_CONTROL_INSERT_TS = true ∧
      ¬ discards t.queue ∧ 0 < t.queue.capacity - t.queue.fill ∧ t.queue.capacity - t.queue.fill < 5
  | .popFront _ => False

/-! ### The parser -/

theorem parseEvents_plain {w : Word} (hw : areBitsSet w UIQ_CONTROL_INSERT_TS = false) (ws : List Word) :
    parseEvents (w :: ws) = (parseEvents ws).map ((w, []) :: ·) := by
  rw [parseEvents.eq_def]
  simp [hw]

theorem parseEvents_stamped {w : Word} (hw : areBitsSet w UIQ_CONTROL_INSERT_TS = true) (a b c d : Word)
    (ws : List Word) :
    parseEvents (w :: a :: b :: c :: d :: ws) = (parseEvents ws).map ((w, [a, b, c, d]) :: ·) := by
  simp only [parseEvents, if_pos hw]

theorem parseEvents_append {xs : List Word} {es : List (Word × List Word)} (h : parseEvents xs = some es)
    (ys : List Word) : parseEvents (xs ++ ys) = (parseEvents ys).map (es ++ ·) := by
  fun_induction parseEvents xs generalizing es with
  | case1 =>
    cases h
    simp
  | case2 w hw a b c d ws ih =>
    obtain ⟨es, hes, rfl⟩ := Option.map_eq_some_iff.mp h
    simp only [List.cons_append, parseEvents_stamped hw, ih hes, Option.map_map]
    rfl
  | case3 => cases h
  | case4 ws w hw ih =>
    obtain ⟨es, hes, rfl⟩ := Option.map_eq_some_iff.mp h
    rw [List.cons_append, parseEvents_plain (Bool.eq_false_iff.mpr hw), ih hes, Option.map_map]
    rfl

/-! ### The flags of the words -/

theorem eot_bit (w : Word) : areBitsSet w UIQ_CONTROL_EOT = w.getLsbD 16 := by
  have hbit : UIQ_CONTROL_EOT = BitVec.twoPow 32 16 := by decide
  have hne : (0#32 == UIQ_CONTROL_EOT) = false := by decide
  rw [areBitsSet, hbit, BitVec.and_twoPow, ← hbit]
  cases w.getLsbD 16 <;> simp [hne]

theorem menGetUiqTimestamp_eot (tvSec tvNsec : Word) (i : Fin 4) :
    areBitsSet ((menGetUiqTimestamp tvSec tvNsec).data i) UIQ_CONTROL_EOT = false := by
  have hlow : ∀ w : Word, areBitsSet (w &&& 0xffff) UIQ_CONTROL_EOT = false := by
    intro w
    rw [eot_bit, BitVec.getLsbD_and, show (0xffff : Word).getLsbD 16 = false by decide, Bool.and_false]
  have hhigh : ∀ w : Word, areBitsSet (w >>> 16) UIQ_CONTROL_EOT = false := by
    intro w
    rw [eot_bit, BitVec.getLsbD_ushiftRight]
    exact BitVec.getLsbD_of_ge w _ (by decide)
  match i with
  | 0 => exact hlow tvSec
  | 1 => exact hhigh tvSec
  | 2 => exact hlow tvNsec
  | 3 => exact hhigh tvNsec

variable {q : UiqBase} {value : Word} {ts : UiqTimestamp}

theorem flagged_eot (q : UiqBase) (value : Word) : (flagged q value).getLsbD 16 = value.getLsbD 16 := by
  unfold flagged
  split
  · rw [BitVec.getLsbD_or, show UIQ_CONTROL_DATALOSS.getLsbD 16 = false by decide, Bool.or_false]
  · rfl

theorem withoutEot_insert (w : Word) :
    areBitsSet (w &&& ~~~UIQ_CONTROL_EOT) UIQ_CONTROL_INSERT_TS = areBitsSet w UIQ_CONTROL_INSERT_TS := by
  rw [areBitsSet, areBitsSet, BitVec.and_assoc,
    show ~~~UIQ_CONTROL_EOT &&& UIQ_CONTROL_INSERT_TS = UIQ_CONTROL_INSERT_TS by decide]

theorem decoratedWords_eotLast (q : UiqBase) (value tvSec tvNsec : Word) :
    (⟨value, menGetUiqTimestamp tvSec tvNsec,
      decoratedWords (flagged q value) (menGetUiqTimestamp tvSec tvNsec)⟩ : Arrival).EotLast := by
  intro w s₀ s₁ s₂ s₃ hs
  simp only [decoratedWords, List.cons.injEq, and_true] at hs
  obtain ⟨rfl, rfl, rfl, rfl, rfl⟩ := hs
  have hstamp := menGetUiqTimestamp_eot tvSec tvNsec
  have hbit : UIQ_CONTROL_EOT = BitVec.twoPow 32 16 := by decide
  refine ⟨?_, ?_⟩
  · intro v hv
    simp only [List.mem_cons, List.not_mem_nil, or_false] at hv
    rcases hv with rfl | rfl | rfl | rfl
    · rw [eot_bit, BitVec.getLsbD_and, show (~~~UIQ_CONTROL_EOT).getLsbD 16 = false by decide, Bool.and_false]
    · exact hstamp 0
    · exact hstamp 1
    · exact hstamp 2
  · have hflag : flagged q value &&& UIQ_CONTROL_EOT ≠ 0 ↔ value.getLsbD 16 = true := by
      rw [hbit, BitVec.and_twoPow, ← hbit, flagged_eot]
      cases value.getLsbD 16 <;> simp [UIQ_CONTROL_EOT]
    rw [eot_bit value]
    split_ifs with hv
    · rw [eot_bit, BitVec.getLsbD_or, hflag.mp hv, show UIQ_CONTROL_EOT.getLsbD 16 = true by decide,
        Bool.or_true]
    · rw [hstamp 3, Bool.eq_false_iff.mpr fun h => hv (hflag.mpr h)]

/-! ### What one operation stores -/

variable {t t' : StreamLog}

theorem arrivalOf_eotLast (q : UiqBase) (value tvSec tvNsec : Word) :
    (arrivalOf q value (menGetUiqTimestamp tvSec tvNsec)).EotLast := by
  unfold arrivalOf wordsKept
  split_ifs
  · simp [Arrival.EotLast]
  · simp [Arrival.EotLast]
  · exact decoratedWords_eotLast q value tvSec tvNsec
  · simp [Arrival.EotLast]

theorem arrivalOf_parses
    (hroom : areBitsSet value UIQ_CONTROL_INSERT_TS = true → ¬ discards q →
      0 < q.capacity - q.fill → 5 ≤ q.capacity - q.fill) :
    parseEvents (arrivalOf q value ts).stored = some (arrivalOf q value ts).event?.toList := by
  unfold arrivalOf wordsKept
  split_ifs with hd hfull hts
  · rfl
  · rfl
  · have hw : areBitsSet (flagged q value &&& ~~~UIQ_CONTROL_EOT) UIQ_CONTROL_INSERT_TS = true := by
      rw [withoutEot_insert, flagged_insert, hts.1]
    exact (parseEvents_stamped hw _ _ _ _ []).trans rfl
  · have hw : areBitsSet (flagged q value) UIQ_CONTROL_INSERT_TS = false := by
      rw [flagged_insert]
      exact Bool.eq_false_iff.mpr fun h => hts ⟨h, hroom h hd (Nat.pos_of_ne_zero hfull)⟩
    exact (parseEvents_plain hw []).trans rfl

theorem arrivalOf_bare (hts : areBitsSet value UIQ_CONTROL_INSERT_TS = true) (hd : ¬ discards q)
    (hpos : 0 < q.capacity - q.fill) (hlt : q.capacity - q.fill < 5) :
    parseEvents (arrivalOf q value ts).stored = none := by
  have hstored : (arrivalOf q value ts).stored = [flagged q value] := by
    rw [arrivalOf, if_neg hd, wordsKept, if_neg (by omega), if_neg fun h => Nat.not_le_of_lt hlt h.2]
  rw [hstored, parseEvents, if_pos ((flagged_insert q value).trans hts)]
  simp

theorem filterMap_event (a : Arrival) : [a].filterMap Arrival.event? = a.event?.toList := by
  rw [List.filterMap_cons]
  cases a.event? <;> rfl

/-- An operation keeps the stream parsable if and only if it stores no bare word. -/
theorem streamStep_framed {op : StreamOp} (h : Streamed t) (hf : Framed t) (he : streamStep t op = some t') :
    Streamed t' ∧ (¬ StoresBare t op → Framed t') ∧ (Framed t' → ¬ StoresBare t op) := by
  obtain ⟨t'', he', hs, _, ha⟩ := streamStep_advances h op
  rw [he] at he'
  cases he'
  refine ⟨hs, ?_⟩
  have hparse := hf.parses
  cases ha with
  | unchanged hno harr _ _ =>
    have hstream : t'.returned ++ t'.queue.contents = t.returned ++ t.queue.contents := by
      rw [hs.stored, harr, h.stored]
    refine ⟨fun _ => ⟨by rw [hstream, harr]; exact hparse, by rw [harr]; exact hf.eotLast⟩, fun _ hbare => ?_⟩
    cases op with
    | write value tvSec tvNsec =>
      have hval := hbare.1
      rw [hno value tvSec tvNsec rfl] at hval
      cases hval
    | popFront n => exact hbare
  | arrives value tvSec tvNsec hop hval harr _ _ =>
    have hstream : t'.returned ++ t'.queue.contents = t.returned ++ t.queue.contents ++
        (arrivalOf t.queue value (menGetUiqTimestamp tvSec tvNsec)).stored := by
      rw [hs.stored, harr, h.stored, List.flatMap_append, List.flatMap_singleton]
    cases hop
    constructor
    · intro hbare
      refine ⟨?_, fun a ha => ?_⟩
      · have hroom : parseEvents (arrivalOf t.queue value (menGetUiqTimestamp tvSec tvNsec)).stored =
            some (arrivalOf t.queue value (menGetUiqTimestamp tvSec tvNsec)).event?.toList :=
          arrivalOf_parses fun hts hd hpos => Nat.le_of_not_lt fun hlt => hbare ⟨hval, hts, hd, hpos, hlt⟩
        rw [hstream, parseEvents_append hparse, hroom, harr, List.filterMap_append, filterMap_event]
        rfl
      · rw [harr, List.mem_append, List.mem_singleton] at ha
        rcases ha with ha | rfl
        · exact hf.eotLast a ha
        · exact arrivalOf_eotLast _ _ _ _
    · rintro hf' ⟨_, hts, hd, hpos, hlt⟩
      have hparse' := hf'.parses
      rw [hstream, parseEvents_append hparse, arrivalOf_bare hts hd hpos hlt] at hparse'
      cases hparse'

/-- The stream of a queue parses in every state of a run if and only if no word that asks
for a timestamp is stored without it. -/
theorem timestamps_framed_iff (buffer : Nat → Word) (capacity : Capacity) (id : Nat) {protocol : UiqProtocol}
    (hp : protocol ≠ .raw) (ops : List StreamOp) :
    Always (ofOption streamStep) Framed (streamQueue buffer capacity id protocol) ops ↔
      Meets (ofOption streamStep) (fun t op => ¬ StoresBare t op) (streamQueue buffer capacity id protocol)
        ops := by
  have hinit : Streamed (streamQueue buffer capacity id protocol) ∧
      Framed (streamQueue buffer capacity id protocol) :=
    ⟨streamQueue_streamed buffer capacity id hp, ⟨by rfl, by simp [streamQueue]⟩⟩
  refine Transition.always_iff_meets (P := fun t => Streamed t ∧ Framed t) (fun _ h => h.2)
    (fun s e t h he => ?_) hinit ops
  obtain ⟨hs, hframed, hbare⟩ := streamStep_framed h.1 h.2 (Transition.ofOption_ok.mp he)
  exact ⟨fun hG => ⟨hs, hframed hG⟩, hbare⟩

instance (t : StreamLog) (op : StreamOp) : Decidable (StoresBare t op) :=
  match op with
  | .write _ _ _ => inferInstanceAs (Decidable (_ = false ∧ _ = true ∧ ¬ discards t.queue ∧ _ < _ ∧ _ < _))
  | .popFront _ => inferInstanceAs (Decidable False)

/-- Two words with their timestamps, in a queue that has room for both. -/
theorem timestamps_framed_iff_twoWords :
    Always (ofOption streamStep) Framed (streamQueue (fun _ => 0) ⟨10, by decide⟩ 0 .legacy)
      [.write 0x40001 7 8, .write 0x50002 7 8] :=
  (timestamps_framed_iff _ _ _ (by decide) _).mpr
    (Transition.meets_of_check (g := fun t op => decide (¬ StoresBare t op))
      (fun _ _ h => of_decide_eq_true h)
      (by decide +kernel))

/-- The second word takes the last place of the queue and leaves none for its timestamp. -/
theorem timestamp_missing :
    ¬ Always (ofOption streamStep) Framed (streamQueue (fun _ => 0) ⟨6, by decide⟩ 0 .legacy)
      [.write 0x40001 7 8, .write 0x50002 7 8] := by
  intro h
  obtain ⟨t, ht, hnone⟩ := Transition.exists_of_check (ofOption streamStep)
    (streamQueue (fun _ => 0) ⟨6, by decide⟩ 0 .legacy) [.write 0x40001 7 8, .write 0x50002 7 8]
    (fun t => decide (parseEvents (t.returned ++ t.queue.contents) = none)) (by decide +kernel)
  have hparse := (h.of_run ht).parses
  rw [of_decide_eq_true hnone] at hparse
  cases hparse

end MenableDriver
