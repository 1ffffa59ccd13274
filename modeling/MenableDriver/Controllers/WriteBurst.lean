import MenableDriver.Controllers.Base
import MenableDriver.Data.Credit
import MenableDriver.Data.Pieces

/-!
# Write bursts

`ctrl_write_burst` writes a buffer shot by shot and waits for the write queue after as many shots as
the queue takes. The shots are counted with an `int`, and a burst can have more of them. All calls of
a burst are known beforehand, as far as it comes.
-/

namespace MenableDriver

set_option autoImplicit false

open Credit (since refills Slips)

/-- `num_queued_commands % write_queue_size` is zero; the `int` becomes a `size_t` for this. -/
def queueIsFull (self : ControllerBase) (numQueuedCommands : Word) : Bool :=
  decide ((numQueuedCommands.signExtend 64).toNat % self.writeQueueSize.val = 0)

/-- The wait behind a shot. -/
def waitWhenFull (self : ControllerBase) (hooks : Hooks) (st : BurstState) (numQueuedCommands : Word) :
    Except BurstState BurstState :=
  if queueIsFull self numQueuedCommands then st.attempt hooks .waitForWriteQueueEmpty else .ok st

/-- The loop, on the bytes from the pointer on; `num_remaining_bytes` is their number. -/
def writeLoop (self : ControllerBase) (hooks : Hooks) (size : Nat) (st : BurstState)
    (buf : List (BitVec 8)) (numQueuedCommands : Word) : Except BurstState (BurstState × Word) :=
  if 0 < buf.length then do
    let isFirst := decide (buf.length = size)
    let isLast := decide (buf.length ≤ self.maxBytesPerWrite.val)
    let bytesToWrite := min buf.length self.maxBytesPerWrite.val
    let st ← (st.setShot isFirst isLast).attempt hooks (.writeShot (buf.take bytesToWrite))
    let numQueuedCommands := numQueuedCommands + 1
    let st ← waitWhenFull self hooks st numQueuedCommands
    writeLoop self hooks size st (buf.drop bytesToWrite) numQueuedCommands
  else .ok (st, numQueuedCommands)
termination_by buf.length
decreasing_by
  have := self.maxBytesPerWrite.pos
  rw [List.length_drop]
  omega

/-- The body of a write burst. -/
def writeShots (self : ControllerBase) (hooks : Hooks) (st : BurstState) (flags : Word)
    (buf : List (BitVec 8)) : Except BurstState BurstState := do
  let st ← beginBurst hooks st flags
  let (st, numQueuedCommands) ← writeLoop self hooks buf.length st buf 0
  let st := st.setShot false false
  if queueIsFull self numQueuedCommands then return st
  else st.attempt hooks .waitForWriteQueueEmpty

def ctrlWriteBurst (self : ControllerBase) (hooks : Hooks) (st : BurstState) (flags : Word)
    (buf : List (BitVec 8)) : Int × BurstState := finishBurst flags (writeShots self hooks st flags buf)

/-! ### What a write burst is for -/

def HookCall.shot : HookCall → Option (List (BitVec 8))
  | .writeShot bytes => some bytes
  | _ => none

/-- The shots that were written. -/
def written (calls : List BurstCall) : List (List (BitVec 8)) := calls.filterMap fun call => call.hook.shot

/-- The shots since the last wait for the write queue. -/
def unwaited (calls : List BurstCall) : Nat :=
  calls.foldl (fun n call =>
    match call.hook with
    | .writeShot _ => n + 1
    | .waitForWriteQueueEmpty => 0
    | _ => n) 0

structure PipelinedWrite (ctrl : ControllerBase) (hooks : Hooks) (buf : List (BitVec 8)) (ret : Int)
    (st : BurstState) : Prop where
  inOrder : (written st.calls).flatten <+: buf
  complete : ret = STATUS_OK → (written st.calls).flatten = buf
  bounded : ∀ shot ∈ written st.calls, 0 < shot.length ∧ shot.length ≤ ctrl.maxBytesPerWrite.val
  /-- At no time more shots than the depth are written and not waited for. -/
  queued : ∀ before, before <+: st.calls → unwaited before ≤ ctrl.writeQueueSize.val
  /-- There is a wait behind the final shot. -/
  waited : ret = STATUS_OK → unwaited st.calls = 0
  flags : ∀ before call shot, before ++ [call] <+: st.calls → call.hook = .writeShot shot →
    (call.isFirstShot = true ↔ written before = []) ∧
      (call.isLastShot = true ↔ (written before).flatten ++ shot = buf)
  lowered : ret = STATUS_OK → st.currentBurstFlags = 0 ∧ st.isFirstShot = false ∧ st.isLastShot = false
  ends : EndsOnFailure hooks ret st

/-- The counter of the shots overflows and lets a wait come too late. -/
def ControllerBase.waitsTooLate (ctrl : ControllerBase) (size : Nat) : Prop :=
  Slips ctrl.writeQueueSize.val (Pieces.count ctrl.maxBytesPerWrite.val size)

instance (ctrl : ControllerBase) (size : Nat) : Decidable (ctrl.waitsTooLate size) :=
  inferInstanceAs (Decidable (Slips _ _))

/-! ### The calls of a burst -/

variable (ctrl : ControllerBase) (flags : Word) (st : BurstState) (buf : List (BitVec 8))

/-- The call of a hook during the shot `i`. -/
def shotCall (hook : HookCall) (i : Nat) : BurstCall :=
  ⟨hook, flags.setWidth 8, decide (i = 0), decide (i + 1 = Pieces.count ctrl.maxBytesPerWrite.val buf.length)⟩

def writeCall (i : Nat) : BurstCall :=
  shotCall ctrl flags buf (.writeShot (Pieces.slice ctrl.maxBytesPerWrite.val buf i)) i

/-- All calls up to the shot `n`, when none fails. -/
def writeCalls : Nat → List BurstCall
  | 0 => [⟨.handlePreBurstFlags flags, flags.setWidth 8, st.isFirstShot, st.isLastShot⟩]
  | n + 1 =>
    if refills ctrl.writeQueueSize.val (n + 1) then
      writeCalls n ++ [writeCall ctrl flags buf n] ++ [shotCall ctrl flags buf .waitForWriteQueueEmpty n]
    else writeCalls n ++ [writeCall ctrl flags buf n]

/-- All calls before the post-burst flags, when none fails. -/
def allCalls : List BurstCall :=
  let shots := Pieces.count ctrl.maxBytesPerWrite.val buf.length
  if refills ctrl.writeQueueSize.val shots then writeCalls ctrl flags st buf shots
  else writeCalls ctrl flags st buf shots ++ [⟨.waitForWriteQueueEmpty, flags.setWidth 8, false, false⟩]

variable {ctrl flags st buf} {hooks : Hooks} {calls before : List BurstCall} {call : BurstCall} {n : Nat}

theorem written_concat (calls : List BurstCall) (call : BurstCall) :
    written (calls ++ [call]) = written calls ++ call.hook.shot.toList := by
  unfold written
  rw [List.filterMap_append]
  cases hshot : call.hook.shot <;> simp [hshot]

theorem unwaited_concat (calls : List BurstCall) (call : BurstCall) :
    unwaited (calls ++ [call]) =
      match call.hook with
      | .writeShot _ => unwaited calls + 1
      | .waitForWriteQueueEmpty => 0
      | _ => unwaited calls := by
  unfold unwaited
  rw [List.foldl_append]
  rfl

theorem writeCalls_prefix_succ (n : Nat) :
    writeCalls ctrl flags st buf n ++ [writeCall ctrl flags buf n] <+:
      writeCalls ctrl flags st buf (n + 1) := by
  rw [writeCalls]
  split_ifs
  · exact List.prefix_append _ _
  · exact List.prefix_refl _

theorem writeCalls_mono {m : Nat} (h : n ≤ m) :
    writeCalls ctrl flags st buf n <+: writeCalls ctrl flags st buf m := by
  induction h with
  | refl => exact List.prefix_refl _
  | step _ ih => exact (ih.trans (List.prefix_append _ _)).trans (writeCalls_prefix_succ _)

theorem writeCalls_prefix_all :
    writeCalls ctrl flags st buf (Pieces.count ctrl.maxBytesPerWrite.val buf.length) <+:
      allCalls ctrl flags st buf := by
  unfold allCalls
  dsimp only
  split_ifs
  · exact List.prefix_refl _
  · exact List.prefix_append _ _

/-- Where a prefix of the calls ends: before the shot, at it, or at the wait behind it. -/
theorem prefix_writeCalls_succ (h : before <+: writeCalls ctrl flags st buf (n + 1)) :
    before <+: writeCalls ctrl flags st buf n ∨
      before = writeCalls ctrl flags st buf n ++ [writeCall ctrl flags buf n] ∨
      before = writeCalls ctrl flags st buf n ++ [writeCall ctrl flags buf n] ++
        [shotCall ctrl flags buf .waitForWriteQueueEmpty n] := by
  rw [writeCalls] at h
  split_ifs at h
  · rcases List.prefix_concat_iff.mp h with heq | h
    · exact Or.inr (Or.inr heq)
    · rcases List.prefix_concat_iff.mp h with heq | h
      · exact Or.inr (Or.inl heq)
      · exact Or.inl h
  · rcases List.prefix_concat_iff.mp h with heq | h
    · exact Or.inr (Or.inl heq)
    · exact Or.inl h

theorem written_writeCalls (n : Nat) :
    written (writeCalls ctrl flags st buf n) =
      (List.range n).map (Pieces.slice ctrl.maxBytesPerWrite.val buf) := by
  induction n with
  | zero => rfl
  | succ n ih =>
    rw [writeCalls, List.range_succ, List.map_append]
    split_ifs
    · rw [written_concat, written_concat, ih]
      simp [writeCall, shotCall, HookCall.shot]
    · rw [written_concat, ih]
      simp [writeCall, shotCall, HookCall.shot]

theorem unwaited_writeCalls (n : Nat) :
    unwaited (writeCalls ctrl flags st buf n) = since (refills ctrl.writeQueueSize.val) n := by
  induction n with
  | zero => rfl
  | succ n ih =>
    rw [writeCalls, since]
    split_ifs
    · rw [unwaited_concat]
      rfl
    · rw [unwaited_concat, ih]
      rfl

/-- The most shots that are written and not waited for. -/
theorem unwaited_le_iff (d n : Nat) :
    (∀ before, before <+: writeCalls ctrl flags st buf n → unwaited before ≤ d) ↔
      ∀ i < n, since (refills ctrl.writeQueueSize.val) i + 1 ≤ d := by
  have hshot : ∀ i, unwaited (writeCalls ctrl flags st buf i ++ [writeCall ctrl flags buf i]) =
      since (refills ctrl.writeQueueSize.val) i + 1 := by
    intro i
    rw [unwaited_concat, unwaited_writeCalls]
    rfl
  constructor
  · intro h i hi
    have hpre := (writeCalls_prefix_succ i).trans
      (writeCalls_mono hi : writeCalls ctrl flags st buf (i + 1) <+: writeCalls ctrl flags st buf n)
    rw [← hshot i]
    exact h _ hpre
  · intro h
    induction n with
    | zero =>
      intro before hp
      rcases List.prefix_concat_iff.mp (show before <+: [] ++ _ from hp) with rfl | hp
      · exact Nat.zero_le d
      · rw [List.prefix_nil.mp hp]
        exact Nat.zero_le d
    | succ n ih =>
      intro before hp
      rcases prefix_writeCalls_succ hp with hp | rfl | rfl
      · exact ih (fun i hi => h i (Nat.lt_succ_of_lt hi)) before hp
      · rw [hshot n]
        exact h n (Nat.lt_succ_self n)
      · rw [unwaited_concat]
        exact Nat.zero_le d

/-- The flags of a shot say which one it is. -/
theorem flags_writeCalls (h : before ++ [call] <+: writeCalls ctrl flags st buf n) {shot : List (BitVec 8)}
    (hcall : call.hook = .writeShot shot) :
    ∃ i < n, before = writeCalls ctrl flags st buf i ∧ call = writeCall ctrl flags buf i := by
  induction n with
  | zero =>
    rcases List.prefix_concat_iff.mp (show before ++ [call] <+: [] ++ _ from h) with heq | hp
    · rw [(List.append_singleton_inj.mp heq).2] at hcall
      exact absurd hcall (by simp)
    · exact absurd (List.prefix_nil.mp hp) (by simp)
  | succ n ih =>
    rcases prefix_writeCalls_succ h with hp | heq | heq
    · obtain ⟨i, hi, heq⟩ := ih hp
      exact ⟨i, Nat.lt_succ_of_lt hi, heq⟩
    · obtain ⟨rfl, rfl⟩ := List.append_singleton_inj.mp heq
      exact ⟨n, Nat.lt_succ_self n, rfl, rfl⟩
    · rw [(List.append_singleton_inj.mp heq).2] at hcall
      exact absurd hcall (by simp [shotCall])

/-- A prefix of all calls is one of the shots and their waits, or it has all of them. -/
theorem prefix_allCalls (h : before <+: allCalls ctrl flags st buf) :
    before <+: writeCalls ctrl flags st buf (Pieces.count ctrl.maxBytesPerWrite.val buf.length) ∨
      before = writeCalls ctrl flags st buf (Pieces.count ctrl.maxBytesPerWrite.val buf.length) ++
        [⟨.waitForWriteQueueEmpty, flags.setWidth 8, false, false⟩] := by
  unfold allCalls at h
  dsimp only at h
  split_ifs at h
  · exact Or.inl h
  · exact (List.prefix_concat_iff.mp h).symm

theorem written_allCalls : written (allCalls ctrl flags st buf) =
    (List.range (Pieces.count ctrl.maxBytesPerWrite.val buf.length)).map
      (Pieces.slice ctrl.maxBytesPerWrite.val buf) := by
  unfold allCalls
  dsimp only
  split_ifs
  · exact written_writeCalls _
  · rw [written_concat, written_writeCalls]
    simp [HookCall.shot]

/-- The burst ends with a wait, or with no shot at all. -/
theorem unwaited_allCalls : unwaited (allCalls ctrl flags st buf) = 0 := by
  unfold allCalls
  dsimp only
  split_ifs with hback
  · rw [unwaited_writeCalls]
    cases hcount : Pieces.count ctrl.maxBytesPerWrite.val buf.length with
    | zero => rfl
    | succ n =>
      rw [hcount] at hback
      rw [since, if_pos hback]
  · rw [unwaited_concat]

/-! ### What a burst does -/

/-- The final call failed, and up to it the calls are those of a burst. -/
def WriteFails (ctrl : ControllerBase) (hooks : Hooks) (flags : Word) (st : BurstState)
    (buf : List (BitVec 8)) (st' : BurstState) : Prop :=
  st'.calls <+: allCalls ctrl flags st buf ∧ Settles hooks (.error st')

/-- The state between two shots. -/
structure Writing (ctrl : ControllerBase) (hooks : Hooks) (flags : Word) (st : BurstState)
    (buf : List (BitVec 8)) (n : Nat) (st' : BurstState) : Prop where
  calls : st'.calls = writeCalls ctrl flags st buf n
  currentBurstFlags : st'.currentBurstFlags = flags.setWidth 8
  allAnswered : AllAnswered hooks st'.calls

theorem shot_prefix_all (hn : n < Pieces.count ctrl.maxBytesPerWrite.val buf.length) :
    writeCalls ctrl flags st buf n ++ [writeCall ctrl flags buf n] <+: allCalls ctrl flags st buf :=
  ((writeCalls_prefix_succ n).trans (writeCalls_mono hn)).trans writeCalls_prefix_all

/-- One shot and the wait behind it. -/
theorem writeShot_writing {st' : BurstState} (hn : n < Pieces.count ctrl.maxBytesPerWrite.val buf.length)
    (h : Writing ctrl hooks flags st buf n st')
    (hfirst : st'.isFirstShot = decide (n = 0))
    (hlast : st'.isLastShot = decide (n + 1 = Pieces.count ctrl.maxBytesPerWrite.val buf.length)) :
    BurstEnds (WriteFails ctrl hooks flags st buf)
      (st'.attempt hooks (.writeShot (Pieces.slice ctrl.maxBytesPerWrite.val buf n)))
      fun st1 => BurstEnds (WriteFails ctrl hooks flags st buf)
        (waitWhenFull ctrl hooks st1 (BitVec.ofNat 32 (n + 1)))
          (Writing ctrl hooks flags st buf (n + 1)) := by
  have hshot : (st'.record (.writeShot (Pieces.slice ctrl.maxBytesPerWrite.val buf n))).calls =
      writeCalls ctrl flags st buf n ++ [writeCall ctrl flags buf n] := by
    simp only [BurstState.record, h.calls, h.currentBurstFlags, hfirst, hlast]
    rfl
  have hpre : (st'.record (.writeShot (Pieces.slice ctrl.maxBytesPerWrite.val buf n))).calls <+:
      allCalls ctrl flags st buf := by
    rw [hshot]
    exact shot_prefix_all hn
  apply (attempt_ends h.allAnswered rfl fun hfail => ⟨hpre, hfail⟩).mono
  rintro _ ⟨rfl, hall⟩
  have hfull : queueIsFull ctrl (BitVec.ofNat 32 (n + 1)) = refills ctrl.writeQueueSize.val (n + 1) := rfl
  unfold waitWhenFull
  rw [hfull]
  split_ifs with hback
  · have hwait : ((st'.record (.writeShot (Pieces.slice ctrl.maxBytesPerWrite.val buf n))).record
        .waitForWriteQueueEmpty).calls = writeCalls ctrl flags st buf (n + 1) := by
      rw [writeCalls, if_pos hback, ← hshot]
      simp only [BurstState.record, h.currentBurstFlags, hfirst, hlast]
      rfl
    have hpreWait : ((st'.record (.writeShot (Pieces.slice ctrl.maxBytesPerWrite.val buf n))).record
        .waitForWriteQueueEmpty).calls <+: allCalls ctrl flags st buf := by
      rw [hwait]
      exact (writeCalls_mono hn).trans writeCalls_prefix_all
    apply (attempt_ends hall rfl fun hfail => ⟨hpreWait, hfail⟩).mono
    rintro _ ⟨rfl, hall'⟩
    exact ⟨hwait, h.currentBurstFlags, hall'⟩
  · refine ⟨?_, h.currentBurstFlags, hall⟩
    rw [hshot, writeCalls, if_neg hback]

/-- The loop from the shot `n` on; `todo` shots are left. -/
theorem writeLoop_writing (todo : Nat) : ∀ n st' bytes,
    n + todo = Pieces.count ctrl.maxBytesPerWrite.val buf.length →
    bytes = buf.drop (n * ctrl.maxBytesPerWrite.val) → Writing ctrl hooks flags st buf n st' →
    BurstEnds (WriteFails ctrl hooks flags st buf)
      (writeLoop ctrl hooks buf.length st' bytes (BitVec.ofNat 32 n)) fun r =>
        Writing ctrl hooks flags st buf (Pieces.count ctrl.maxBytesPerWrite.val buf.length) r.1 ∧
          r.2 = BitVec.ofNat 32 (Pieces.count ctrl.maxBytesPerWrite.val buf.length) := by
  have hm := ctrl.maxBytesPerWrite.pos
  induction todo with
  | zero =>
    intro n st' bytes htodo hbytes h
    obtain rfl : n = Pieces.count ctrl.maxBytesPerWrite.val buf.length := htodo
    have hge : buf.length ≤ Pieces.count ctrl.maxBytesPerWrite.val buf.length * ctrl.maxBytesPerWrite.val :=
      Pieces.count_mul_ge hm
    have hnil : ¬0 < bytes.length := by
      rw [hbytes, List.length_drop]
      omega
    rw [writeLoop, if_neg hnil]
    exact ⟨h, rfl⟩
  | succ todo ih =>
    intro n st' bytes htodo hbytes h
    have hn : n < Pieces.count ctrl.maxBytesPerWrite.val buf.length := by omega
    have hlt := (Pieces.lt_count_iff hm).mp hn
    have hsucc : (n + 1) * ctrl.maxBytesPerWrite.val =
        n * ctrl.maxBytesPerWrite.val + ctrl.maxBytesPerWrite.val := Nat.succ_mul _ _
    have hlength : bytes.length = buf.length - n * ctrl.maxBytesPerWrite.val := by
      rw [hbytes, List.length_drop]
    have hpos : 0 < bytes.length := by omega
    have hshot : bytes.take (min bytes.length ctrl.maxBytesPerWrite.val) =
        Pieces.slice ctrl.maxBytesPerWrite.val buf n := by
      rw [Nat.min_comm, ← List.take_eq_take_min, hbytes]
      rfl
    have hfirst : decide (bytes.length = buf.length) = decide (n = 0) := by
      refine decide_eq_decide.mpr ⟨fun heq => ?_, fun heq => ?_⟩
      · by_contra hne
        have := Nat.mul_pos (Nat.pos_of_ne_zero hne) hm
        omega
      · rw [hlength, heq]
        omega
    have hlast : decide (bytes.length ≤ ctrl.maxBytesPerWrite.val) =
        decide (n + 1 = Pieces.count ctrl.maxBytesPerWrite.val buf.length) := by
      have hnext : n + 1 < Pieces.count ctrl.maxBytesPerWrite.val buf.length ↔
          (n + 1) * ctrl.maxBytesPerWrite.val < buf.length := Pieces.lt_count_iff hm
      apply decide_eq_decide.mpr
      omega
    have hrest : bytes.drop (min bytes.length ctrl.maxBytesPerWrite.val) =
        buf.drop ((n + 1) * ctrl.maxBytesPerWrite.val) := by
      rw [hlength, hbytes, List.drop_drop]
      by_cases hfull : ctrl.maxBytesPerWrite.val ≤ buf.length - n * ctrl.maxBytesPerWrite.val
      · rw [Nat.min_eq_right hfull, hsucc]
      · rw [List.drop_eq_nil_of_le (by omega), List.drop_eq_nil_of_le (by omega)]
    have hcount : BitVec.ofNat 32 n + 1 = BitVec.ofNat 32 (n + 1) := (BitVec.ofNat_add n 1).symm
    rw [writeLoop, if_pos hpos]
    dsimp only
    rw [hfirst, hlast, hshot, hcount]
    have hset : Writing ctrl hooks flags st buf n (st'.setShot (decide (n = 0))
        (decide (n + 1 = Pieces.count ctrl.maxBytesPerWrite.val buf.length))) :=
      ⟨h.calls, h.currentBurstFlags, h.allAnswered⟩
    apply BurstEnds.bind (writeShot_writing hn hset rfl rfl)
    intro st1 hst1
    apply BurstEnds.bind hst1
    intro st2 hst2
    exact ih (n + 1) st2 _ (by omega) hrest hst2

theorem writeShots_writing (hooks : Hooks) :
    BurstEnds (WriteFails ctrl hooks flags st buf) (writeShots ctrl hooks st flags buf) fun st' =>
      st'.calls = allCalls ctrl flags st buf ∧ AllAnswered hooks st'.calls ∧
        st'.isFirstShot = false ∧ st'.isLastShot = false := by
  have hpre : writeCalls ctrl flags st buf 0 <+: allCalls ctrl flags st buf :=
    (writeCalls_mono (Nat.zero_le _)).trans writeCalls_prefix_all
  unfold writeShots
  apply BurstEnds.bind (attempt_ends allAnswered_nil rfl fun hfail => ⟨hpre, hfail⟩)
  rintro _ ⟨rfl, hall⟩
  have hbytes : buf = buf.drop (0 * ctrl.maxBytesPerWrite.val) := by simp
  refine BurstEnds.bind (writeLoop_writing _ 0 _ buf (Nat.zero_add _) hbytes ⟨rfl, rfl, hall⟩) ?_
  rintro ⟨st1, numQueuedCommands⟩ ⟨hst1, hnum⟩
  obtain rfl : numQueuedCommands = _ := hnum
  have hfull : queueIsFull ctrl (BitVec.ofNat 32 (Pieces.count ctrl.maxBytesPerWrite.val buf.length)) =
      refills ctrl.writeQueueSize.val (Pieces.count ctrl.maxBytesPerWrite.val buf.length) := rfl
  dsimp only
  rw [hfull]
  split_ifs with hback
  · refine ⟨?_, hst1.allAnswered, rfl, rfl⟩
    unfold allCalls
    dsimp only
    rw [if_pos hback]
    exact hst1.calls
  · have hwait : ((st1.setShot false false).record .waitForWriteQueueEmpty).calls =
        allCalls ctrl flags st buf := by
      unfold allCalls
      dsimp only
      rw [if_neg hback, ← hst1.calls, ← hst1.currentBurstFlags]
      rfl
    have hpreWait : ((st1.setShot false false).record .waitForWriteQueueEmpty).calls <+:
        allCalls ctrl flags st buf := ⟨[], (List.append_nil _).trans hwait⟩
    have hall1 : AllAnswered hooks (st1.setShot false false).calls := hst1.allAnswered
    apply (attempt_ends hall1 rfl fun hfail => ⟨hpreWait, hfail⟩).mono
    rintro _ ⟨rfl, hall'⟩
    exact ⟨hwait, hall', rfl, rfl⟩

theorem writeCalls_hooks {P : HookCall → Prop} (hpre : P (.handlePreBurstFlags flags))
    (hshot : ∀ bytes, P (.writeShot bytes)) (hwait : P .waitForWriteQueueEmpty) (n : Nat) :
    ∀ call ∈ writeCalls ctrl flags st buf n, P call.hook := by
  induction n with
  | zero =>
    intro call hmem
    rw [List.mem_singleton.mp hmem]
    exact hpre
  | succ n ih =>
    intro call hmem
    rw [writeCalls] at hmem
    split_ifs at hmem
    · simp only [List.mem_append, List.mem_singleton] at hmem
      obtain (hmem | rfl) | rfl := hmem
      · exact ih call hmem
      · exact hshot _
      · exact hwait
    · simp only [List.mem_append, List.mem_singleton] at hmem
      obtain hmem | rfl := hmem
      · exact ih call hmem
      · exact hshot _

theorem allCalls_hooks {P : HookCall → Prop} (hpre : P (.handlePreBurstFlags flags))
    (hshot : ∀ bytes, P (.writeShot bytes)) (hwait : P .waitForWriteQueueEmpty) :
    ∀ call ∈ allCalls ctrl flags st buf, P call.hook := by
  intro call hmem
  unfold allCalls at hmem
  dsimp only at hmem
  split_ifs at hmem
  · exact writeCalls_hooks hpre hshot hwait _ call hmem
  · rcases List.mem_append.mp hmem with hmem | hmem
    · exact writeCalls_hooks hpre hshot hwait _ call hmem
    · rw [List.mem_singleton.mp hmem]
      exact hwait

/-- A write burst calls no other hooks. -/
theorem ctrlWriteBurst_calls {P : HookCall → Prop} (ctrl : ControllerBase) (hooks : Hooks) (st : BurstState)
    (flags : Word) (buf : List (BitVec 8)) (hpre : P (.handlePreBurstFlags flags))
    (hpost : P (.handlePostBurstFlags flags)) (hshot : ∀ bytes, P (.writeShot bytes))
    (hwait : P .waitForWriteQueueEmpty) (habort : P .burstAborted) :
    CalledOnly P (ctrlWriteBurst ctrl hooks st flags buf).2 := by
  have hshots : BurstEnds (WriteFails ctrl hooks flags st buf) (writeShots ctrl hooks st flags buf) _ :=
    writeShots_writing hooks
  have hall := @allCalls_hooks ctrl flags st buf P hpre hshot hwait
  apply finishBurst_calls _ hpost habort
  cases hr : writeShots ctrl hooks st flags buf with
  | ok st' =>
    rw [hr] at hshots
    intro call hmem
    rw [hshots.1] at hmem
    exact hall call hmem
  | error st' =>
    rw [hr] at hshots
    intro call hmem
    exact hall call (hshots.1.subset hmem)

theorem writeShots_settles (ctrl : ControllerBase) (hooks : Hooks) (st : BurstState) (flags : Word)
    (buf : List (BitVec 8)) : Settles hooks (writeShots ctrl hooks st flags buf) := by
  have hshots : BurstEnds (WriteFails ctrl hooks flags st buf) (writeShots ctrl hooks st flags buf) _ :=
    writeShots_writing hooks
  cases hr : writeShots ctrl hooks st flags buf with
  | ok st' =>
    rw [hr] at hshots
    exact hshots.2.1
  | error st' =>
    rw [hr] at hshots
    exact hshots.2

theorem ctrlWriteBurst_ends (ctrl : ControllerBase) (hooks : Hooks) (st : BurstState) (flags : Word)
    (buf : List (BitVec 8)) :
    EndsOnFailure hooks (ctrlWriteBurst ctrl hooks st flags buf).1 (ctrlWriteBurst ctrl hooks st flags buf).2 :=
  finishBurst_ends (writeShots_settles ctrl hooks st flags buf)

/-! ### The law -/

theorem flatten_mono {xss yss : List (List (BitVec 8))} (h : xss <+: yss) : xss.flatten <+:
    yss.flatten := by
  obtain ⟨rest, rfl⟩ := h
  rw [List.flatten_append]
  exact List.prefix_append _ _

theorem written_flatten : (written (allCalls ctrl flags st buf)).flatten = buf := by
  rw [written_allCalls]
  exact Pieces.flatten_slices_count ctrl.maxBytesPerWrite.pos buf

/-- A call that is neither a shot nor a wait. -/
structure Silent (call : BurstCall) : Prop where
  shot : call.hook.shot = none
  wait : call.hook ≠ .waitForWriteQueueEmpty

theorem Silent.written (h : Silent call) (calls : List BurstCall) :
    MenableDriver.written (calls ++ [call]) = MenableDriver.written calls := by
  rw [written_concat, h.shot]
  simp

theorem Silent.unwaited (h : Silent call) (calls : List BurstCall) :
    MenableDriver.unwaited (calls ++ [call]) = MenableDriver.unwaited calls := by
  rw [unwaited_concat]
  have hshot := h.shot
  have hwait := h.wait
  split
  · rename_i bytes hhook
    rw [hhook] at hshot
    exact absurd hshot (by simp [HookCall.shot])
  · rename_i hhook
    exact absurd hhook hwait
  · rfl

theorem unwaited_le (hin : ¬ctrl.waitsTooLate buf.length) (h : before <+: allCalls ctrl flags st buf) :
    unwaited before ≤ ctrl.writeQueueSize.val := by
  rcases prefix_allCalls h with hp | rfl
  · have hsince := (Credit.since_lt_iff ctrl.writeQueueSize.pos ctrl.writeQueueSize.lt).mpr hin
    exact (unwaited_le_iff _ _).mpr hsince before hp
  · rw [unwaited_concat]
    exact Nat.zero_le _

theorem flags_allCalls (h : before ++ [call] <+: allCalls ctrl flags st buf) {shot : List (BitVec 8)}
    (hcall : call.hook = .writeShot shot) :
    (call.isFirstShot = true ↔ written before = []) ∧
      (call.isLastShot = true ↔ (written before).flatten ++ shot = buf) := by
  rcases prefix_allCalls h with hp | heq
  · obtain ⟨i, hi, rfl, rfl⟩ := flags_writeCalls hp hcall
    obtain rfl : _ = shot := HookCall.writeShot.inj hcall
    rw [written_writeCalls, Pieces.flatten_succ_iff ctrl.maxBytesPerWrite.pos hi]
    simp [writeCall, shotCall]
  · rw [(List.append_singleton_inj.mp heq).2] at hcall
    exact absurd hcall (by simp)

/-- What the calls of a burst have, a burst has that was ended early, too. -/
theorem pipelinedWrite_of_prefix {ret : Int} {st' : BurstState} {front : List BurstCall}
    (hfront : front <+: allCalls ctrl flags st buf) (hcalls : st'.calls = front ++ [call])
      (hcall : Silent call)
    (hin : ¬ctrl.waitsTooLate buf.length) (hdone : ret = STATUS_OK → front = allCalls ctrl flags st buf)
    (hlowered : ret = STATUS_OK →
      st'.currentBurstFlags = 0 ∧ st'.isFirstShot = false ∧ st'.isLastShot = false)
    (hends : EndsOnFailure hooks ret st') : PipelinedWrite ctrl hooks buf ret st' where
  inOrder := by
    rw [hcalls, hcall.written]
    have hflat := flatten_mono (hfront.filterMap fun call => call.hook.shot)
    rwa [← written, ← written, written_flatten] at hflat
  complete hok := by
    rw [hcalls, hcall.written, hdone hok]
    exact written_flatten
  bounded := by
    intro shot hmem
    have hm := ctrl.maxBytesPerWrite.pos
    rw [hcalls, hcall.written] at hmem
    have hall := (hfront.filterMap fun call => call.hook.shot).subset hmem
    rw [← written, written_allCalls] at hall
    obtain ⟨i, hi, rfl⟩ := List.mem_map.mp hall
    rw [Pieces.slice_length]
    exact ⟨Pieces.length_pos hm ((Pieces.lt_count_iff hm).mp (List.mem_range.mp hi)), Pieces.length_le⟩
  queued := by
    intro before hp
    rw [hcalls] at hp
    rcases List.prefix_concat_iff.mp hp with rfl | hp
    · rw [hcall.unwaited]
      exact unwaited_le hin hfront
    · exact unwaited_le hin (hp.trans hfront)
  waited hok := by
    rw [hcalls, hcall.unwaited, hdone hok]
    exact unwaited_allCalls
  flags := by
    intro before call' shot hp hshot
    rw [hcalls] at hp
    rcases List.prefix_concat_iff.mp hp with heq | hp
    · have hnone := hcall.shot
      rw [← (List.append_singleton_inj.mp heq).2, hshot] at hnone
      exact absurd hnone (by simp [HookCall.shot])
    · exact flags_allCalls (hp.trans hfront) hshot
  lowered := hlowered
  ends := hends

/-- As long as the counter does not slip, a burst is written as it should be, whatever the hooks
report. -/
theorem pipelined_of_inTime (hin : ¬ctrl.waitsTooLate buf.length) (hooks : Hooks) :
    PipelinedWrite ctrl hooks buf (ctrlWriteBurst ctrl hooks st flags buf).1
      (ctrlWriteBurst ctrl hooks st flags buf).2 := by
  have hshots : BurstEnds (WriteFails ctrl hooks flags st buf) (writeShots ctrl hooks st flags buf) _ :=
    writeShots_writing hooks
  unfold ctrlWriteBurst
  cases hr : writeShots ctrl hooks st flags buf with
  | ok st' =>
    rw [hr] at hshots
    obtain ⟨hcalls, hall, hfirst, hlast⟩ := hshots
    have hfinal : (finishBurst flags (.ok st')).2.calls = allCalls ctrl flags st buf ++
        [⟨.handlePostBurstFlags flags, st'.currentBurstFlags, st'.isFirstShot, st'.isLastShot⟩] := by
      rw [← hcalls]
      rfl
    exact pipelinedWrite_of_prefix (List.prefix_refl _) hfinal ⟨rfl, by simp⟩ hin (fun _ => rfl)
      (fun _ => ⟨rfl, hfirst, hlast⟩) (finishBurst_ok hall)
  | error st' =>
    rw [hr] at hshots
    obtain ⟨hfront, hsettles⟩ := hshots
    have hne : ¬STATUS_ERROR = STATUS_OK := by decide
    exact pipelinedWrite_of_prefix hfront rfl ⟨rfl, by simp⟩ hin (fun h => absurd h hne)
      (fun h => absurd h hne) (finishBurst_ends hsettles)

/-- Hooks that always succeed. -/
def allSucceed : Hooks := fun _ => STATUS_OK

theorem writeShots_allSucceed (ctrl : ControllerBase) (flags : Word) (st : BurstState)
    (buf : List (BitVec 8)) :
    ∃ st', writeShots ctrl allSucceed st flags buf = .ok st' ∧ st'.calls = allCalls ctrl flags st buf := by
  have hshots : BurstEnds (WriteFails ctrl allSucceed flags st buf)
      (writeShots ctrl allSucceed st flags buf) _ :=
    writeShots_writing allSucceed
  cases hr : writeShots ctrl allSucceed st flags buf with
  | ok st' =>
    rw [hr] at hshots
    exact ⟨st', rfl, hshots.1⟩
  | error st' =>
    rw [hr] at hshots
    obtain ⟨-, before, call, -, -, herr⟩ := hshots
    exact absurd herr.2 (by simp [allSucceed, menIsError, STATUS_OK])

/-- Where the counter slips, a burst without any error overruns the queue. -/
theorem not_pipelined_of_late (hlate : ctrl.waitsTooLate buf.length) (st : BurstState) (flags : Word) :
    ¬PipelinedWrite ctrl allSucceed buf (ctrlWriteBurst ctrl allSucceed st flags buf).1
      (ctrlWriteBurst ctrl allSucceed st flags buf).2 := by
  intro h
  obtain ⟨st', hst', hcalls⟩ := writeShots_allSucceed ctrl flags st buf
  have hfinal : (ctrlWriteBurst ctrl allSucceed st flags buf).2.calls =
      allCalls ctrl flags st buf ++ [⟨.handlePostBurstFlags flags, st'.currentBurstFlags, st'.isFirstShot,
        st'.isLastShot⟩] := by
    rw [ctrlWriteBurst, hst', ← hcalls]
    rfl
  have hqueued : ∀ before,
      before <+: writeCalls ctrl flags st buf (Pieces.count ctrl.maxBytesPerWrite.val buf.length) →
      unwaited before ≤ ctrl.writeQueueSize.val := by
    intro before hp
    apply h.queued before
    rw [hfinal]
    exact (hp.trans writeCalls_prefix_all).trans (List.prefix_append _ _)
  have hsince := (unwaited_le_iff _ _).mp hqueued
  exact (Credit.since_lt_iff ctrl.writeQueueSize.pos ctrl.writeQueueSize.lt).mp hsince hlate

/-- The law of a write burst holds, in all states and with all hooks, if and only if the counter does
not slip. -/
theorem ctrlWriteBurst_pipelined_iff (ctrl : ControllerBase) (buf : List (BitVec 8)) :
    (∀ hooks st flags, PipelinedWrite ctrl hooks buf (ctrlWriteBurst ctrl hooks st flags buf).1
      (ctrlWriteBurst ctrl hooks st flags buf).2) ↔ ¬ctrl.waitsTooLate buf.length := by
  constructor
  · intro h hlate
    exact not_pipelined_of_late hlate ⟨0, false, false, []⟩ 0 (h allSucceed _ _)
  · intro hin hooks st flags
    exact pipelined_of_inTime hin hooks

/-- A depth of 13 and shots of one byte. -/
def depth13 : ControllerBase where
  readQueueSize := ⟨1, Nat.one_pos, ShotLimit.one_lt⟩
  maxBytesPerRead := ⟨1, Nat.one_pos, ShotLimit.one_lt⟩
  writeQueueSize := ⟨13, by decide, by decide⟩
  maxBytesPerWrite := ⟨1, Nat.one_pos, ShotLimit.one_lt⟩

/-- With 2^31 + 3 bytes the last wait before the overflow is behind the shot 2^31 - 11, and 14 shots
follow without one. -/
theorem ctrlWriteBurst_late : ¬PipelinedWrite depth13 allSucceed (List.replicate (2 ^ 31 + 3) 0)
    (ctrlWriteBurst depth13 allSucceed ⟨0, false, false, []⟩ 0 (List.replicate (2 ^ 31 + 3) 0)).1
    (ctrlWriteBurst depth13 allSucceed ⟨0, false, false, []⟩ 0 (List.replicate (2 ^ 31 + 3) 0)).2 := by
  refine not_pipelined_of_late ?_ _ _
  rw [List.length_replicate]
  decide

end MenableDriver
