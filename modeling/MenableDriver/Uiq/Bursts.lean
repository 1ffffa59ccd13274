import MenableDriver.Uiq.Writers

/-!
# What the device receives from a write queue

The words of the users go to the device in bursts. A write sends the first burst when the
queue is not running, and the interrupt that the device raises for a burst sends the next
one. A run logs the words whose write has succeeded, the bursts, and the bursts whose
interrupt has not been handled yet.
-/

namespace MenableDriver

set_option autoImplicit false

open Transition (ofOption ofOption_ok run Always always_of_meets)

/-- The file system hands at most a page to `uiq_write`, so the words of a request fit
into its counter. -/
structure UserWrite extends WriteRequest where
  fits : bufferSize / 4 < Counter.wrap

inductive BurstEvent where
  | write (w : UserWrite)
  | wake
  | timeOut
  | resume (fatal : Bool)
  | irq

def BurstEvent.toWriteEvent : BurstEvent → WriteEvent
  | .write w => .write w.toWriteRequest
  | .wake => .wake
  | .timeOut => .timeOut
  | .resume fatal => .resume fatal
  | .irq => .irq

structure BurstLog where
  sys : WriteSys
  queued : List Word := []
  bursts : List (List (Nat × Word)) := []
  unhandled : Nat := 0

/-- A call has returned a number of bytes. -/
def succeeded (s t : WriteSys) : Bool :=
  match t.answers with
  | .ok _ :: rest => decide (rest.length = s.answers.length)
  | _ => false

/-- The words of the write that a step completes. -/
def wordsOf (s : WriteSys) : BurstEvent → List Word
  | .write w => w.words
  | .resume _ => s.request.words
  | _ => []

def handled : BurstEvent → Nat
  | .irq => 1
  | _ => 0

def burstStep (l : BurstLog) (e : BurstEvent) : Option BurstLog := do
  let s ← writerStep l.sys e.toWriteEvent
  let sent := s.uiq.written.drop l.sys.uiq.written.length
  some {
    sys := s
    queued := if succeeded l.sys s then l.queued ++ wordsOf l.sys e else l.queued
    bursts := if sent = [] then l.bursts else l.bursts ++ [sent]
    unhandled := l.unhandled - handled e + if sent = [] then 0 else 1 }

/-- A burst of the legacy protocol: the last word ends the transmission. -/
def legacyBurst : List Word → List Word
  | [] => []
  | [w] => [(w &&& 0xffff#32) ||| UIQ_CONTROL_EOT]
  | w :: ws => (w &&& 0xffff#32) :: legacyBurst ws

/-- The words of a group as the device receives them, all through the data register. -/
def deviceWrites (type : UiqType) (g : List Word) : List (Nat × Word) :=
  (if type = .writeLegacy then legacyBurst g else g.map (· &&& 0xffff#32)).map fun w => (0, w)

/-- The device has received the queued words, group by group, but for those in the queue. -/
def InBursts (type : UiqType) (depth : Nat) (l : BurstLog) : Prop :=
  ∃ groups : List (List Word), l.bursts = groups.map (deviceWrites type) ∧ l.queued = groups.flatten ++
    l.sys.uiq.base.contents ∧
    ∀ g ∈ groups, g ≠ [] ∧ g.length ≤ depth

/-- A queue with words waits for the interrupt of a burst. -/
def NotStalled (l : BurstLog) : Prop :=
  l.sys.uiq.base.contents ≠ [] → l.sys.uiq.base.isRunning = true ∧ 0 < l.unhandled

/-! ### The words of a burst -/

variable {u u' : MenableUiq} {q : UiqBase} {type : UiqType} {depth n : Nat}

theorem wordAt_contents (h : q.Ok) (hn : n ≤ q.fill) :
    (List.range n).map q.wordAt = q.contents.take n := by
  rw [UiqBase.contents, Ring.take_window hn]
  refine List.map_congr_left fun i hi => ?_
  have hlt := List.mem_range.mp hi
  exact wordAt_eq h (by omega)

theorem legacyBurst_concat (ws : List Word) (w : Word) :
    legacyBurst (ws ++ [w]) = ws.map (· &&& 0xffff#32) ++ [(w &&& 0xffff#32) ||| UIQ_CONTROL_EOT] := by
  induction ws with
  | nil => rfl
  | cons v ws ih =>
    have hcons : legacyBurst (v :: (ws ++ [w])) = (v &&& 0xffff#32) :: legacyBurst (ws ++ [w]) := by
      cases ws <;> rfl
    rw [List.cons_append, hcons, ih]
    rfl

theorem uiqWriteToDeviceLegacy_eq (h : q.Ok) (hn : n ≤ q.fill) :
    uiqWriteToDeviceLegacy q n = (legacyBurst (q.contents.take n)).map fun w => (0, w) := by
  rw [← wordAt_contents h hn]
  cases n with
  | zero => rfl
  | succ n =>
    rw [uiqWriteToDeviceLegacy, if_neg (Nat.succ_ne_zero n), List.range_succ, List.map_append,
      List.map_singleton,
      legacyBurst_concat, List.map_append, List.map_map, List.map_map]
    rfl

theorem burst_eq (h : q.Ok) (htype : q.type = .writeRaw ∨ q.type = .writeLegacy) (hn : n ≤ q.fill) :
    q.burst n = deviceWrites q.type (q.contents.take n) := by
  rcases htype with ht | ht
  · rw [UiqBase.burst, ht, deviceWrites, if_neg (by decide), ← wordAt_contents h hn, List.map_map,
      List.map_map]
    rfl
  · rw [UiqBase.burst, ht, deviceWrites, if_pos rfl]
    exact uiqWriteToDeviceLegacy_eq h hn

theorem deviceWrites_eq_nil {g : List Word} : deviceWrites type g = [] ↔ g = [] := by
  unfold deviceWrites
  rw [List.map_eq_nil_iff]
  split_ifs
  · constructor
    · intro h
      cases g with
      | nil => rfl
      | cons w ws => cases ws <;> cases h
    · rintro rfl
      rfl
  · exact List.map_eq_nil_iff

/-! ### What a step sends -/

/-- The step appends the words `new` and sends the group `g` from the front. -/
structure Sends (u u' : MenableUiq) (new g : List Word) : Prop where
  ok : u'.base.Ok
  type : u'.base.type = u.base.type
  depth : u'.base.fpgaFifoDepth = u.base.fpgaFifoDepth
  contents : u.base.contents ++ new = g ++ u'.base.contents
  written : u'.written = u.written ++ deviceWrites u.base.type g
  size : g.length ≤ u.base.fpgaFifoDepth

theorem sends_nothing (h : u.base.Ok) (hbase : u'.base = u.base) (hwritten : u'.written = u.written) :
    Sends u u' [] [] where
  ok := by rwa [hbase]
  type := by rw [hbase]
  depth := by rw [hbase]
  contents := by rw [hbase, List.append_nil, List.nil_append]
  written := by rw [hwritten, deviceWrites_eq_nil.mpr rfl, List.append_nil]
  size := Nat.zero_le _

/-- A push in front of words sends a group of them. -/
theorem menUiqPush_sends (hu : u.base.Ok) (htype : u.base.type = .writeRaw ∨ u.base.type = .writeLegacy)
    (hdepth : 0 < u.base.fpgaFifoDepth) (hfill : u.base.fill ≠ 0) :
    ∃ u' empty g, menUiqPush u = some (u', empty) ∧ Sends u u' [] g ∧ g ≠ [] ∧
      u'.base.isRunning = u.base.isRunning := by
  have hle := hu.fill
  obtain ⟨u', empty, he, ht⟩ := menUiqPush_takes hu (by omega)
  have hlen : (u.base.contents.take (min u.base.fpgaFifoDepth u.base.fill)).length =
      min u.base.fpgaFifoDepth u.base.fill := by
    rw [List.length_take, UiqBase.length_contents]
    omega
  refine ⟨u', empty, u.base.contents.take (min u.base.fpgaFifoDepth u.base.fill), he,
    ⟨ht.ok, ht.type, ht.depth, ?_, ?_, by omega⟩, fun hnil => ?_, ht.running⟩
  · rw [ht.contents, List.append_nil, List.take_append_drop]
  · rw [ht.written, burst_eq hu htype (Nat.min_le_right ..)]
  · rw [hnil, List.length_nil] at hlen
    omega

theorem uiqWritePush_sends (hu : u.base.Ok) (htype : u.base.type = .writeRaw ∨ u.base.type = .writeLegacy)
    (hdepth : 0 < u.base.fpgaFifoDepth) {words : List Word} (hne : words ≠ [])
    (hroom : words.length ≤ u.base.capacity - u.base.fill) :
    ∃ u' g, uiqWritePush u words = some u' ∧ Sends u u' words g ∧ u'.base.isRunning = true ∧
      (u.base.isRunning = false → g ≠ []) := by
  have hpush := pushBack_eq hu words
  rw [Nat.min_eq_left hroom] at hpush
  have hn : words.length = min words.length (u.base.capacity - u.base.fill) := (Nat.min_eq_left hroom).symm
  have hok := pushed_ok hu words hn
  have hcontents := pushed_contents hu words hn
  rw [List.take_length] at hcontents
  simp only [uiqWritePush, hpush, Option.bind_eq_bind, Option.bind_some]
  by_cases hrun : u.base.isRunning = true
  · refine ⟨{ u with base := pushed u.base words words.length }, [], if_pos hrun, ?_, hrun, by simp [hrun]⟩
    exact ⟨hok, rfl, rfl, hcontents.symm, by rw [deviceWrites_eq_nil.mpr rfl, List.append_nil], Nat.zero_le _⟩
  · have hfill : (pushed u.base words words.length).fill ≠ 0 := by
      have hpos := List.length_pos_iff.mpr hne
      change u.base.fill + words.length ≠ 0
      omega
    obtain ⟨u', empty, g, he, hs, hg, _⟩ :=
      menUiqPush_sends (u := { u with base := pushed u.base words words.length }) hok htype hdepth hfill
    have hidle : ¬ (pushed u.base words words.length).isRunning = true := hrun
    have hc : (pushed u.base words words.length).contents ++ [] = g ++ u'.base.contents := hs.contents
    rw [List.append_nil] at hc
    refine ⟨{ u' with base := { u'.base with isRunning := true } }, g, ?_, ?_, rfl, fun _ => hg⟩
    · rw [if_neg hidle, he]
      rfl
    · exact ⟨⟨hs.ok.capacity, hs.ok.fill, hs.ok.readIndex⟩, hs.type, hs.depth, hcontents.symm.trans hc,
        hs.written,
        hs.size⟩

theorem uiqIrqWrite_sends (hu : u.base.Ok) (htype : u.base.type = .writeRaw ∨ u.base.type = .writeLegacy)
    (hdepth : 0 < u.base.fpgaFifoDepth) :
    ∃ u' g, uiqIrqWrite u = some u' ∧ Sends u u' [] g ∧
      (u'.base.isRunning = true → g ≠ []) ∧ (u'.base.isRunning = false → u.base.isRunning = false ∨
        u'.base.contents = []) := by
  unfold uiqIrqWrite
  split_ifs with hfill
  · have hempty : u.base.contents = [] := List.length_eq_zero_iff.mp (u.base.length_contents.trans hfill)
    refine ⟨_, [], rfl, ⟨⟨hu.capacity, hu.fill, .inr rfl⟩, rfl, rfl, ?_, ?_, Nat.zero_le _⟩, by simp,
      fun _ => .inr ?_⟩
    · rw [hempty, UiqBase.contents, hfill]
      rfl
    · rw [deviceWrites_eq_nil.mpr rfl, List.append_nil]
    · rw [UiqBase.contents, hfill]
      rfl
  · obtain ⟨u', empty, g, he, hs, hg, hrun⟩ := menUiqPush_sends hu htype hdepth hfill
    refine ⟨u', g, by rw [he]; rfl, hs, fun _ => hg, fun h => .inl (hrun ▸ h)⟩

/-! ### Runs -/

structure Bursting (type : UiqType) (depth : Nat) (l : BurstLog) : Prop where
  armed : WriterArmed l.sys
  cleared : l.sys.cleared = false
  request : ∀ r, l.sys.writer = some r → r.words = l.sys.request.numWords
  kind : l.sys.uiq.base.type = type
  fifo : l.sys.uiq.base.fpgaFifoDepth = depth
  sent : InBursts type depth l
  written : l.sys.uiq.written = l.bursts.flatten
  running : l.sys.uiq.base.isRunning = true → 0 < l.unhandled
  idle : l.sys.uiq.base.isRunning = false → l.sys.uiq.base.contents = []

/-- What a step of the system does to the queue, and what it keeps of the writer. -/
structure BurstMoves (s t : WriteSys) (e : BurstEvent) (new g : List Word) : Prop where
  sends : Sends s.uiq t.uiq new g
  queued : (if succeeded s t then wordsOf s e else []) = new
  cleared : t.cleared = false
  request : ∀ r, t.writer = some r → r.words = t.request.numWords
  running : t.uiq.base.isRunning = true → g ≠ [] ∨ handled e = 0 ∧ s.uiq.base.isRunning = true
  idle : t.uiq.base.isRunning = false → s.uiq.base.isRunning = false ∧ new = [] ∨ t.uiq.base.contents = []

variable {s t : WriteSys} {e : BurstEvent} {l l' : BurstLog}

theorem moves_nothing (h : s.uiq.base.Ok) (hbase : t.uiq.base = s.uiq.base)
    (hwritten : t.uiq.written = s.uiq.written)
    (hqueued : (if succeeded s t then wordsOf s e else []) = []) (hcleared : t.cleared = false)
    (hrequest : ∀ r, t.writer = some r → r.words = t.request.numWords) (hhandled : handled e = 0) :
    BurstMoves s t e [] [] where
  sends := sends_nothing h hbase hwritten
  queued := hqueued
  cleared := hcleared
  request := hrequest
  running hrun := .inr ⟨hhandled, hbase ▸ hrun⟩
  idle hidle := .inl ⟨hbase ▸ hidle, rfl⟩

theorem queued_same (h : t.answers = s.answers) (ws : List Word) : (if succeeded s t then ws else []) =
    [] := by
  apply if_neg
  unfold succeeded
  rw [h]
  split
  · rename_i rest hs
    simp [hs]
  · simp

theorem queued_error {err : Errno} (h : t.answers = .error err :: s.answers) (ws : List Word) :
    (if succeeded s t then ws else []) = [] :=
  if_neg (by simp [succeeded, h])

theorem queued_ok {n : Nat} (h : t.answers = .ok n :: s.answers) (ws : List Word) :
    (if succeeded s t then ws else []) = ws :=
  if_pos (by simp [succeeded, h])

theorem not_growsPast (s : WriteSys) (e : BurstEvent) : ¬ GrowsPast s e.toWriteEvent := by
  cases e <;> exact id

theorem length_words (r : WriteRequest) : r.words.length = r.numWords := by
  rw [WriteRequest.words, List.length_map, List.length_range]

theorem UserWrite.numWords_pos (w : UserWrite) (h0 : w.bufferSize ≠ 0) (h4 : w.bufferSize % 4 = 0) :
    0 < w.numWords := by
  have hfits := w.fits
  change 0 < w.bufferSize / 4 % Counter.wrap
  rw [Nat.mod_eq_of_lt hfits]
  omega

section Steps
variable {type : UiqType} {depth : Nat} (htype : type = .writeRaw ∨ type = .writeLegacy) (hdepth : 0 < depth)
include htype hdepth

theorem write_moves (h : Bursting type depth l) (w : UserWrite) :
    ∃ t new g, writerStep l.sys (.write w.toWriteRequest) = some t ∧ BurstMoves l.sys t (.write w) new g := by
  obtain ⟨s, _, _, _⟩ := l
  have hok : s.uiq.base.Ok := h.armed.ok
  have hfree : Counter.sub s.uiq.base.capacity s.uiq.base.fill = s.uiq.base.capacity - s.uiq.base.fill :=
    getFreeCapacity_eq hok
  simp only [writerStep, hfree]
  split_ifs with hempty hodd hspace hbusy hfew
  · have hwords : w.words = [] := by
      rw [WriteRequest.words, WriteRequest.numWords, hempty]
      rfl
    refine ⟨{ s with answers := .ok 0 :: s.answers }, [], [], rfl,
      moves_nothing hok rfl rfl ?_ h.cleared h.request rfl⟩
    rw [queued_ok rfl]
    exact hwords
  · exact ⟨{ s with answers := .error .EINVAL :: s.answers }, [], [], rfl,
      moves_nothing hok rfl rfl (queued_error rfl _) h.cleared h.request rfl⟩
  · exact ⟨{ s with answers := .error .ENOSPC :: s.answers }, [], [], rfl,
      moves_nothing hok rfl rfl (queued_error rfl _) h.cleared h.request rfl⟩
  · exact ⟨{ s with answers := .error .EBUSY :: s.answers }, [], [], rfl,
      moves_nothing hok rfl rfl (queued_error rfl _) h.cleared h.request rfl⟩
  · refine ⟨_, [], [], rfl, moves_nothing hok rfl rfl (queued_same rfl _) rfl (fun r hr => ?_) rfl⟩
    cases hr
    rfl
  · have hpos := w.numWords_pos hempty (not_not.mp hodd)
    have hlen := length_words w.toWriteRequest
    have hne : w.words ≠ [] := List.ne_nil_of_length_pos (by omega)
    obtain ⟨u, g, he, hs, hrun, hg⟩ := uiqWritePush_sends hok (h.kind ▸ htype)
      (h.fifo ▸ hdepth) hne (by omega)
    refine ⟨{ s with uiq := u, answers := .ok w.bufferSize :: s.answers }, w.words, g, by rw [he]; rfl, hs,
      queued_ok rfl _, h.cleared, h.request, fun _ => ?_, fun hidle => absurd hidle (by simp [hrun])⟩
    cases hrunning : s.uiq.base.isRunning with
    | false => exact .inl (hg hrunning)
    | true => exact .inr ⟨rfl, rfl⟩

theorem irq_moves (h : Bursting type depth l) :
    ∃ t g, writerStep l.sys .irq = some t ∧ BurstMoves l.sys t .irq [] g := by
  obtain ⟨u, g, he, hs, hrun, hidle⟩ := uiqIrqWrite_sends h.armed.ok (h.kind ▸ htype) (h.fifo ▸ hdepth)
  exact ⟨{ l.sys with uiq := u }, g, by simp only [writerStep, he]; rfl, hs, queued_same rfl _,
    h.cleared, h.request,
    fun hr => .inl (hrun hr), fun hi => (hidle hi).imp_left fun hi => ⟨hi, rfl⟩⟩

theorem resume_moves (h : Bursting type depth l) {fatal : Bool}
    (he : writerStep l.sys (.resume fatal) = some t) :
    ∃ new g, BurstMoves l.sys t (.resume fatal) new g := by
  obtain ⟨s, _, _, _⟩ := l
  have hok : s.uiq.base.Ok := h.armed.ok
  have hfree : Counter.sub s.uiq.base.capacity s.uiq.base.fill = s.uiq.base.capacity - s.uiq.base.fill :=
    getFreeCapacity_eq hok
  simp only [writerStep, hfree] at he
  split at he
  · rename_i n completed hn
    obtain ⟨hpos, hlt, htodo⟩ := h.armed.asleep _ hn
    have hreq : n = s.request.numWords := h.request _ hn
    rw [if_neg (by rw [h.cleared]; exact Bool.false_ne_true)] at htodo
    split_ifs at he with hcleared hroom hagain
    · -- only a reset leaves this mark
      rw [htodo] at hcleared
      rw [hcleared, cpltodoCleared] at hlt
      omega
    · have hlen := length_words s.request
      have hne : s.request.words ≠ [] := List.ne_nil_of_length_pos (by rw [hlen, ← hreq]; exact hpos)
      obtain ⟨u, g, hpush, hs, hrun, hg⟩ := uiqWritePush_sends (u := { s.uiq with cpltodo := 0 }) hok
        (h.kind ▸ htype) (h.fifo ▸ hdepth) hne (by rw [hlen, ← hreq]; exact hroom)
      rw [hpush] at he
      cases he
      refine ⟨s.request.words, g, ⟨hs.ok, hs.type, hs.depth, hs.contents, hs.written, hs.size⟩,
        queued_ok rfl _,
        h.cleared, fun r hr => (by cases hr), fun _ => ?_, fun hidle => absurd hidle (by simp [hrun])⟩
      cases hrunning : s.uiq.base.isRunning with
      | false => exact .inl (hg hrunning)
      | true => exact .inr ⟨rfl, rfl⟩
    · cases he
      refine ⟨[], [], moves_nothing hok rfl rfl (queued_same rfl _) h.cleared (fun r hr => ?_) rfl⟩
      cases hr
      exact hreq
    · cases he
      exact ⟨[], [], moves_nothing hok rfl rfl (queued_error rfl _) h.cleared (fun r hr => (by cases hr)) rfl⟩
  · cases he

theorem writerStep_moves (h : Bursting type depth l) (he : writerStep l.sys e.toWriteEvent = some t) :
    ∃ new g, BurstMoves l.sys t e new g := by
  cases e with
  | write w =>
    obtain ⟨t', new, g, he', hm⟩ := write_moves htype hdepth h w
    have heq : t' = t := Option.some.inj (he'.symm.trans he)
    exact ⟨new, g, heq ▸ hm⟩
  | irq =>
    obtain ⟨t', g, he', hm⟩ := irq_moves htype hdepth h
    have heq : t' = t := Option.some.inj (he'.symm.trans he)
    exact ⟨[], g, heq ▸ hm⟩
  | resume fatal => exact resume_moves htype hdepth h he
  | wake =>
    simp only [BurstEvent.toWriteEvent, writerStep] at he
    split at he
    · rename_i n hn
      split_ifs at he
      cases he
      refine ⟨[], [], moves_nothing h.armed.ok rfl rfl (queued_same rfl _) h.cleared (fun r hr => ?_) rfl⟩
      cases hr
      exact h.request (.waiting n) hn
    · cases he
  | timeOut =>
    simp only [BurstEvent.toWriteEvent, writerStep] at he
    split at he
    · rename_i n hn
      cases he
      refine ⟨[], [], moves_nothing h.armed.ok rfl rfl (queued_same rfl _) h.cleared (fun r hr => ?_) rfl⟩
      cases hr
      exact h.request (.waiting n) hn
    · cases he

omit htype hdepth in
theorem inBursts_moves (h : Bursting type depth l) {new g : List Word} (hm : BurstMoves l.sys t e new g)
    (hsys : l'.sys = t) (hqueued : l'.queued = l.queued ++ new)
    (hbursts : l'.bursts = if g = [] then l.bursts else l.bursts ++ [deviceWrites type g]) :
    InBursts type depth l' := by
  obtain ⟨groups, hgroups, hwords, hsize⟩ := h.sent
  have hcontents := hm.sends.contents
  by_cases hg : g = []
  · rw [hg, List.nil_append] at hcontents
    rw [if_pos hg] at hbursts
    refine ⟨groups, hbursts.trans hgroups, ?_, hsize⟩
    rw [hqueued, hwords, hsys, List.append_assoc, hcontents]
  · rw [if_neg hg] at hbursts
    refine ⟨groups ++ [g], by rw [hbursts, hgroups, List.map_append, List.map_singleton], ?_,
      fun g' hg' => ?_⟩
    · rw [hqueued, hwords, hsys, List.append_assoc, hcontents, List.flatten_append, List.flatten_singleton,
        List.append_assoc]
    · rcases List.mem_append.mp hg' with hg' | hg'
      · exact hsize g' hg'
      · obtain rfl := List.mem_singleton.mp hg'
        exact ⟨hg, h.fifo ▸ hm.sends.size⟩

theorem burstStep_bursting (h : Bursting type depth l) (he : burstStep l e = some l') :
    Bursting type depth l' := by
  obtain ⟨t, ht, he⟩ := Option.bind_eq_some_iff.mp he
  obtain ⟨new, g, hm⟩ := writerStep_moves htype hdepth h ht
  have hsent : t.uiq.written.drop l.sys.uiq.written.length = deviceWrites type g := by
    rw [hm.sends.written, List.drop_left, h.kind]
  have hqueued : (if succeeded l.sys t then l.queued ++ wordsOf l.sys e else l.queued) = l.queued ++ new := by
    rw [← hm.queued]
    split_ifs
    · rfl
    · exact (List.append_nil _).symm
  simp only [hsent, hqueued, deviceWrites_eq_nil] at he
  cases he
  refine ⟨writerStep_armed h.armed (not_growsPast l.sys e) ht, hm.cleared, hm.request,
    hm.sends.type.trans h.kind,
    hm.sends.depth.trans h.fifo, inBursts_moves h hm rfl rfl rfl, ?_, fun hrun => ?_, fun hidle => ?_⟩
  · dsimp only
    rw [hm.sends.written, h.kind, h.written]
    split_ifs with hg
    · rw [deviceWrites_eq_nil.mpr hg, List.append_nil]
    · rw [List.flatten_append, List.flatten_singleton]
  · dsimp only at hrun ⊢
    rcases hm.running hrun with hg | ⟨hhandled, hrun⟩
    · rw [if_neg hg]
      omega
    · have hpos := h.running hrun
      omega
  · dsimp only at hidle ⊢
    rcases hm.idle hidle with ⟨hidle, hnew⟩ | hempty
    · have hcontents := hm.sends.contents
      rw [h.idle hidle, hnew, List.append_nil] at hcontents
      exact (List.append_eq_nil_iff.mp hcontents.symm).2
    · exact hempty

/-- No write and no interrupt gets stuck. -/
def Serves (l : BurstLog) : Prop :=
  (∀ w, ∃ l', burstStep l (.write w) = some l') ∧ ∃ l', burstStep l .irq = some l'

theorem Bursting.serves (h : Bursting type depth l) : Serves l := by
  refine ⟨fun w => ?_, ?_⟩
  · obtain ⟨t, _, _, ht, _⟩ := write_moves htype hdepth h w
    exact ⟨_, by simp only [burstStep, BurstEvent.toWriteEvent, ht]; rfl⟩
  · obtain ⟨t, _, ht, _⟩ := irq_moves htype hdepth h
    exact ⟨_, by simp only [burstStep, BurstEvent.toWriteEvent, ht]; rfl⟩

omit htype hdepth in
theorem Bursting.notStalled (h : Bursting type depth l) : NotStalled l := by
  intro hne
  cases hrun : l.sys.uiq.base.isRunning with
  | false => exact absurd (h.idle hrun) hne
  | true => exact ⟨rfl, h.running hrun⟩

/-- A raw or legacy write queue sends the words of its users in bursts of the size of the
FIFO at most, and does not stall. -/
theorem bursts_delivered (buffer : Nat → Word) (capacity : Capacity) (id cpl : Nat) (es : List BurstEvent) :
    Always (ofOption burstStep)
      (fun l => InBursts type depth l ∧ l.sys.uiq.written = l.bursts.flatten ∧ NotStalled l ∧ Serves l)
      { sys := emptyWriteQueue buffer capacity id type depth cpl } es := by
  have hinit : Bursting type depth { sys := emptyWriteQueue buffer capacity id type depth cpl } := by
    refine ⟨writerArmed_of_none (uiqBaseInit_refines buffer capacity.2 id type .raw depth).ok rfl, rfl,
      fun r hr => (by cases hr), rfl, ?_, ⟨[], rfl, rfl, by simp⟩, rfl, fun hrun => (by cases hrun),
        fun _ => rfl⟩
    rcases htype with rfl | rfl <;> rfl
  refine (always_of_meets (G := fun _ _ => True) (fun l e l' _ h he => ?_) hinit (Transition.meets_true _ es)).mono
    fun l h => ⟨h.sent, h.written, h.notStalled, h.serves htype hdepth⟩
  exact burstStep_bursting htype hdepth h (ofOption_ok.mp he)

end Steps

/-- Two words that do not fit into one burst. -/
def twoWords : UserWrite where
  bufferSize := 8
  buf := fun i => if i = 0 then 0x50001 else 2
  fits := by decide

theorem bursts_delivered_twoWords :
    Always (ofOption burstStep)
      (fun l => InBursts .writeLegacy 1 l ∧ l.sys.uiq.written = l.bursts.flatten ∧ NotStalled l ∧ Serves l)
      { sys := emptyWriteQueue (fun _ => 0) ⟨2, by decide⟩ 7 .writeLegacy 1 0 }
        [.write twoWords, .irq, .irq] :=
  bursts_delivered (.inr rfl) (by decide) _ _ _ _ _

end MenableDriver
