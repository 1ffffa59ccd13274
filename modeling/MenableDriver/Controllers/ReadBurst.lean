import MenableDriver.Controllers.Base
import MenableDriver.Data.Pieces
import MenableDriver.Data.Pipeline

/-!
# Read bursts

`ctrl_read_burst` asks for as many shots as the read queue takes, and then asks for the next one
after each result that it collects. Both sides cut their own count of bytes into shots. The trace of
a burst is one of a pipeline, in which the request and the result with the same number have the same
piece of the buffer.
-/

namespace MenableDriver

set_option autoImplicit false

open Pipeline (Trace)

/-- The first loop; `todo` operations still fit into the queue. -/
def requestAhead (self : ControllerBase) (hooks : Hooks) (size : Nat) :
    Nat → Nat → BurstState → Nat → Nat → Except BurstState (BurstState × Nat × Nat)
  | 0, _, st, bytesToRequest, bytesToRead => .ok (st, bytesToRequest, bytesToRead)
  | todo + 1, i, st, bytesToRequest, bytesToRead =>
    if 0 < bytesToRequest then do
      let numBytes := min bytesToRequest self.maxBytesPerRead.val
      let bytesToRequest := bytesToRequest - numBytes
      let bytesToRead := bytesToRead + numBytes
      let isLast := decide (bytesToRead = size)
      let st ← (st.setShot (decide (i = 0)) isLast).attempt hooks (.requestRead numBytes)
      requestAhead self hooks size todo (i + 1) st bytesToRequest bytesToRead
    else .ok (st, bytesToRequest, bytesToRead)

/-- The second loop, with what is left of both counts at its end. -/
def readAndRequest (self : ControllerBase) (hooks : Hooks) (buf : Nat) (st : BurstState)
    (bytesToRequest bytesToRead : Nat) : Except BurstState (BurstState × Nat × Nat) :=
  if 0 < bytesToRead then do
    let isLast := decide (bytesToRequest = 0 ∧ bytesToRead ≤ self.maxBytesPerRead.val)
    let numBytes := min bytesToRead self.maxBytesPerRead.val
    let st ← (st.setShot st.isFirstShot isLast).attempt hooks (.readShot buf numBytes)
    let st := st.setShot false st.isLastShot
    if 0 < bytesToRequest then do
      let numRequested := min bytesToRequest self.maxBytesPerRead.val
      let st ← st.attempt hooks (.requestRead numRequested)
      readAndRequest self hooks (buf + numBytes) st (bytesToRequest - numRequested)
        (bytesToRead - numBytes + numRequested)
    else readAndRequest self hooks (buf + numBytes) st bytesToRequest (bytesToRead - numBytes)
  else .ok (st, bytesToRequest, bytesToRead)
termination_by bytesToRequest + bytesToRead
decreasing_by
  all_goals
    have := self.maxBytesPerRead.pos
    omega

/-- The body of a read burst. The two assertions behind the loops warn only. -/
def readShots (self : ControllerBase) (hooks : Hooks) (st : BurstState) (flags : Word) (size : Nat) :
    Except BurstState BurstState := do
  let st ← beginBurst hooks st flags
  let (st, bytesToRequest, bytesToRead) ← requestAhead self hooks size self.readQueueSize.val 0 st size 0
  let (st, _, _) ← readAndRequest self hooks 0 (st.setShot true st.isLastShot) bytesToRequest bytesToRead
  return st.setShot st.isFirstShot false

def ctrlReadBurst (self : ControllerBase) (hooks : Hooks) (st : BurstState) (flags : Word) (size : Nat) :
    Int × BurstState := finishBurst flags (readShots self hooks st flags size)

/-! ### What a read burst is for -/

def HookCall.requested : HookCall → Option Nat
  | .requestRead numBytes => some numBytes
  | _ => none

def HookCall.collected : HookCall → Option (Nat × Nat)
  | .readShot buf numBytes => some (buf, numBytes)
  | _ => none

/-- The sizes of the requests. -/
def requested (calls : List BurstCall) : List Nat := calls.filterMap fun call => call.hook.requested

/-- The results, each with its place in the buffer and its size. -/
def collected (calls : List BurstCall) : List (Nat × Nat) := calls.filterMap fun call => call.hook.collected

structure PipelinedRead (ctrl : ControllerBase) (hooks : Hooks) (size : Nat) (ret : Int) (st : BurstState) :
    Prop where
  total : ret = STATUS_OK → (requested st.calls).sum = size
  bounded : ∀ numBytes ∈ requested st.calls, 0 < numBytes ∧ numBytes ≤ ctrl.maxBytesPerRead.val
  /-- At no time more requests than the depth are without their result, nor is a result collected
  before it was asked for. -/
  outstanding : ∀ before, before <+: st.calls →
    (collected before).length ≤ (requested before).length ∧
      (requested before).length ≤ (collected before).length + ctrl.readQueueSize.val
  /-- The k-th result has the size of the k-th request. -/
  aligned : (collected st.calls).map Prod.snd <+: requested st.calls
  answered : ret = STATUS_OK → (collected st.calls).length = (requested st.calls).length
  contiguous : ∃ e ≤ size, Pieces.Contiguous 0 (collected st.calls) e
  covered : ret = STATUS_OK → Pieces.Contiguous 0 (collected st.calls) size
  /-- The flags of a result, and those of a request. -/
  readFlags : ∀ before call buf numBytes, before ++ [call] <+: st.calls → call.hook = .readShot buf numBytes →
    (call.isFirstShot = true ↔ collected before = []) ∧ (call.isLastShot = true ↔ buf + numBytes = size)
  requestFlags : ∀ before call numBytes, before ++ [call] <+: st.calls → call.hook = .requestRead numBytes →
    (call.isFirstShot = true ↔ requested before = []) ∧
      (call.isLastShot = true → (requested before).sum + numBytes = size)
  lowered : ret = STATUS_OK → 0 < size →
    st.currentBurstFlags = 0 ∧ st.isFirstShot = false ∧ st.isLastShot = false
  ends : EndsOnFailure hooks ret st

/-! ### The pipeline of a burst -/

/-- The requests ask for the pieces of the buffer, and the results take them. -/
def ControllerBase.readProtocol (self : ControllerBase) (size : Nat) : Pipeline.Protocol BurstCall where
  pieces := Pieces.count self.maxBytesPerRead.val size
  depth := self.readQueueSize.val
  asks k call :=
    call.hook = .requestRead (Pieces.length self.maxBytesPerRead.val size k) ∧
      (call.isFirstShot = true ↔ k = 0) ∧
      (call.isLastShot = true → k + 1 = Pieces.count self.maxBytesPerRead.val size)
  takes j call :=
    call.hook = .readShot (j * self.maxBytesPerRead.val) (Pieces.length self.maxBytesPerRead.val size j) ∧
      (call.isFirstShot = true ↔ j = 0) ∧
      (call.isLastShot = true ↔ j + 1 = Pieces.count self.maxBytesPerRead.val size)
  idle call := call.hook.requested = none ∧ call.hook.collected = none

/-- The calls so far all went well, and are those of the pipeline. -/
structure Reading (ctrl : ControllerBase) (hooks : Hooks) (size : Nat) (st : BurstState)
    (k j : Nat) : Prop where
  trace : Trace (ctrl.readProtocol size) st.calls k j
  allAnswered : AllAnswered hooks st.calls

/-- The final call failed. -/
def ReadFails (ctrl : ControllerBase) (hooks : Hooks) (size : Nat) (st : BurstState) : Prop :=
  (∃ k j, Trace (ctrl.readProtocol size) st.calls k j) ∧ Settles hooks (.error st)

variable {ctrl : ControllerBase} {hooks : Hooks} {size k j : Nat} {st : BurstState} {hook : HookCall}
  {calls before : List BurstCall} {flags : Word}

/-- A call that the pipeline allows. -/
theorem attempt_reading (h : AllAnswered hooks st.calls) (hc : hook.checked = true)
    (ht : Trace (ctrl.readProtocol size) (st.record hook).calls k j) :
    BurstEnds (ReadFails ctrl hooks size) (st.attempt hooks hook) fun st' =>
      st' = st.record hook ∧ Reading ctrl hooks size st' k j := by
  apply (attempt_ends h hc fun hfail => ⟨⟨k, j, ht⟩, hfail⟩).mono
  rintro st' ⟨rfl, hall⟩
  exact ⟨rfl, ht, hall⟩

theorem Reading.setShot (h : Reading ctrl hooks size st k j) (isFirst isLast : Bool) :
    Reading ctrl hooks size (st.setShot isFirst isLast) k j := ⟨h.trace, h.allAnswered⟩

theorem Reading.request (h : Reading ctrl hooks size st k j) {numBytes : Nat}
    (hn : numBytes = Pieces.length ctrl.maxBytesPerRead.val size k)
    (hk : k * ctrl.maxBytesPerRead.val < size) (hd : k < j + ctrl.readQueueSize.val)
    (hfirst : st.isFirstShot = true ↔ k = 0)
    (hlast : st.isLastShot = true → k + 1 = Pieces.count ctrl.maxBytesPerRead.val size) :
    BurstEnds (ReadFails ctrl hooks size) (st.attempt hooks (.requestRead numBytes)) fun st' =>
      st' = st.record (.requestRead numBytes) ∧ Reading ctrl hooks size st' (k + 1) j := by
  subst hn
  apply attempt_reading h.allAnswered rfl
  exact Trace.ask h.trace ((Pieces.lt_count_iff ctrl.maxBytesPerRead.pos).mpr hk) hd ⟨rfl, hfirst, hlast⟩

theorem Reading.result (h : Reading ctrl hooks size st k j) (hlt : j < k) {buf numBytes : Nat}
    (hb : buf = j * ctrl.maxBytesPerRead.val)
    (hn : numBytes = Pieces.length ctrl.maxBytesPerRead.val size j)
    (hfirst : st.isFirstShot = true ↔ j = 0)
    (hlast : st.isLastShot = true ↔ j + 1 = Pieces.count ctrl.maxBytesPerRead.val size) :
    BurstEnds (ReadFails ctrl hooks size) (st.attempt hooks (.readShot buf numBytes)) fun st' =>
      st' = st.record (.readShot buf numBytes) ∧ Reading ctrl hooks size st' k (j + 1) := by
  subst hb hn
  apply attempt_reading h.allAnswered rfl
  exact Trace.take h.trace hlt ⟨rfl, hfirst, hlast⟩

/-! ### The two loops -/

/-- The counts of the loops after `k` requests and `j` results. -/
structure ReadCounts (most size k j buf bytesToRequest bytesToRead : Nat) : Prop where
  request : bytesToRequest = size - k * most
  read : bytesToRead = min size (k * most) - j * most
  place : buf = min size (j * most)

section Counts
variable {most buf toRequest toRead : Nat}

theorem ReadCounts.ask (h : ReadCounts most size k j buf toRequest toRead) (hm : 0 < most)
    (hj : j * most ≤ min size (k * most)) :
    ReadCounts most size (k + 1) j buf (toRequest - min toRequest most) (toRead + min toRequest most) := by
  obtain ⟨hreq, hread, hbuf⟩ := h
  have hsucc : (k + 1) * most = k * most + most := Nat.succ_mul k most
  exact ⟨by omega, by omega, hbuf⟩

theorem ReadCounts.collect (h : ReadCounts most size k j buf toRequest toRead) (hjk : j < k)
    (hpos : 0 < toRead) :
    buf = j * most ∧ min toRead most = Pieces.length most size j ∧
      ReadCounts most size k (j + 1) (buf + min toRead most) toRequest (toRead - min toRead most) := by
  obtain ⟨hreq, hread, hbuf⟩ := h
  have hsucc : (j + 1) * most = j * most + most := Nat.succ_mul j most
  have hle : (j + 1) * most ≤ k * most := Nat.mul_le_mul_right most hjk
  have hlength : min toRead most = Pieces.length most size j := by
    unfold Pieces.length
    omega
  exact ⟨by omega, hlength, hreq, by omega, by omega⟩

theorem ReadCounts.lt (h : ReadCounts most size k j buf toRequest toRead) (hpos : 0 < toRead) : j < k := by
  by_contra hge
  have hle := Nat.mul_le_mul_right most (Nat.le_of_not_lt hge)
  have hread := h.read
  omega

/-- Whether a result is the final one, as the loop sees it in its counts. -/
theorem ReadCounts.isLast_iff (h : ReadCounts most size k j buf toRequest toRead) (hm : 0 < most)
    (hk : k ≤ Pieces.count most size) (hjk : j < k) :
    (toRequest = 0 ∧ toRead ≤ most) ↔ j + 1 = Pieces.count most size := by
  obtain ⟨hreq, hread, _⟩ := h
  have hsucc : (j + 1) * most = j * most + most := Nat.succ_mul j most
  constructor
  · rintro ⟨hall, hrest⟩
    have hend : ¬j + 1 < Pieces.count most size := by
      rw [Pieces.lt_count_iff hm]
      omega
    omega
  · intro hend
    have hge : size ≤ Pieces.count most size * most := Pieces.count_mul_ge hm
    obtain rfl : k = j + 1 := by omega
    rw [← hend] at hge
    omega

/-- Nothing is left to read when nothing is left to request. -/
theorem ReadCounts.done (h : ReadCounts most size k j buf toRequest toRead) (hm : 0 < most)
    (hk : k ≤ Pieces.count most size) (hjk : j ≤ k) (hread : toRead = 0) (hfull : toRequest = 0 ∨ j < k) :
    toRequest = 0 ∧ k = Pieces.count most size ∧ j = Pieces.count most size := by
  have hreq := h.request
  have hrest := h.read
  have hall : size ≤ k * most := by
    rcases hfull with hzero | hlt
    · omega
    · have hle : (j + 1) * most ≤ k * most := Nat.mul_le_mul_right most hlt
      have hsucc : (j + 1) * most = j * most + most := Nat.succ_mul j most
      omega
  have hkend : ¬k < Pieces.count most size := by
    rw [Pieces.lt_count_iff hm]
    omega
  have hjend : ¬j < Pieces.count most size := by
    rw [Pieces.lt_count_iff hm]
    omega
  omega

end Counts

/-- The first loop asks for everything, or for as much as the queue takes. -/
theorem requestAhead_reading (todo : Nat) : ∀ i st toRequest toRead,
    ReadCounts ctrl.maxBytesPerRead.val size i 0 0 toRequest toRead → Reading ctrl hooks size st i 0 →
    todo + i = ctrl.readQueueSize.val →
    BurstEnds (ReadFails ctrl hooks size) (requestAhead ctrl hooks size todo i st toRequest toRead) fun r =>
      ∃ k, ReadCounts ctrl.maxBytesPerRead.val size k 0 0 r.2.1 r.2.2 ∧ Reading ctrl hooks size r.1 k 0 ∧
        (r.2.1 = 0 ∨ k = ctrl.readQueueSize.val) := by
  have hm := ctrl.maxBytesPerRead.pos
  induction todo with
  | zero =>
    intro i st toRequest toRead hcounts h htodo
    exact ⟨i, hcounts, h, Or.inr (by omega)⟩
  | succ todo ih =>
    intro i st toRequest toRead hcounts h htodo
    rw [requestAhead]
    split_ifs with hreq
    · have hlt : i * ctrl.maxBytesPerRead.val < size := by
        have := hcounts.request
        omega
      have hnext := hcounts.ask hm (by omega)
      have hlast : decide (toRead + min toRequest ctrl.maxBytesPerRead.val = size) = true →
          i + 1 = Pieces.count ctrl.maxBytesPerRead.val size := by
        intro hfull
        have hend : ¬i + 1 < Pieces.count ctrl.maxBytesPerRead.val size := by
          rw [Pieces.lt_count_iff hm]
          have hread := hnext.read
          have := of_decide_eq_true hfull
          omega
        have hi := (Pieces.lt_count_iff hm).mpr hlt
        omega
      have hshot := h.setShot (decide (i = 0))
        (decide (toRead + min toRequest ctrl.maxBytesPerRead.val = size))
      have hnum : min toRequest ctrl.maxBytesPerRead.val = Pieces.length ctrl.maxBytesPerRead.val size i := by
        rw [hcounts.request]
        rfl
      apply BurstEnds.bind (hshot.request hnum hlt (by omega) decide_eq_true_iff hlast)
      rintro st' ⟨-, hst'⟩
      exact ih (i + 1) st' _ _ hnext hst' (by omega)
    · exact ⟨i, hcounts, h, Or.inl (Nat.eq_zero_of_not_pos hreq)⟩

/-- The second loop collects all pieces. As long as there is something to ask for, the queue is full
whenever a result is collected. -/
theorem readAndRequest_reading (n : Nat) : ∀ k j st buf toRequest toRead, toRequest + toRead = n →
    ReadCounts ctrl.maxBytesPerRead.val size k j buf toRequest toRead → Reading ctrl hooks size st k j →
    (toRequest = 0 ∨ k = j + ctrl.readQueueSize.val) → (st.isFirstShot = true ↔ j = 0) →
    BurstEnds (ReadFails ctrl hooks size) (readAndRequest ctrl hooks buf st toRequest toRead) fun r =>
      Reading ctrl hooks size r.1 (Pieces.count ctrl.maxBytesPerRead.val size)
          (Pieces.count ctrl.maxBytesPerRead.val size) ∧
        (r.1.isFirstShot = true ↔ Pieces.count ctrl.maxBytesPerRead.val size = 0) ∧ r.2 = (0, 0) := by
  have hm := ctrl.maxBytesPerRead.pos
  have hdepth := ctrl.readQueueSize.pos
  induction n using Nat.strong_induction_on with
  | _ n ih =>
    intro k j st buf toRequest toRead hn hcounts h hfull hfirst
    obtain ⟨hjk, -, hkn⟩ := h.trace.bounds
    rw [readAndRequest]
    by_cases hread : 0 < toRead
    · rw [if_pos hread]
      have hlt := hcounts.lt hread
      obtain ⟨hbuf, hnum, hnext⟩ := hcounts.collect hlt hread
      have hshot := h.setShot st.isFirstShot (decide (toRequest = 0 ∧ toRead ≤ ctrl.maxBytesPerRead.val))
      have hlast := decide_eq_true_iff.trans (hcounts.isLast_iff hm hkn hlt)
      apply BurstEnds.bind (hshot.result hlt hbuf hnum hfirst hlast)
      rintro st' ⟨rfl, hst'⟩
      have hst'' := hst'.setShot false (decide (toRequest = 0 ∧ toRead ≤ ctrl.maxBytesPerRead.val))
      by_cases hreq : 0 < toRequest
      · have hk : k * ctrl.maxBytesPerRead.val < size := by
          have := hcounts.request
          omega
        have hle : (j + 1) * ctrl.maxBytesPerRead.val ≤ k * ctrl.maxBytesPerRead.val :=
          Nat.mul_le_mul_right _ hlt
        have hnumRequest : min toRequest ctrl.maxBytesPerRead.val =
            Pieces.length ctrl.maxBytesPerRead.val size k := by
          rw [hcounts.request]
          rfl
        have hnotLast : decide (toRequest = 0 ∧ toRead ≤ ctrl.maxBytesPerRead.val) = true →
            k + 1 = Pieces.count ctrl.maxBytesPerRead.val size := by
          intro h
          have := (of_decide_eq_true h).1
          omega
        dsimp only
        rw [if_pos hreq]
        refine BurstEnds.bind (hst''.request hnumRequest hk (by omega) ?_ hnotLast) ?_
        · exact ⟨fun h => absurd h Bool.false_ne_true, fun h => absurd h (by omega)⟩
        · rintro st3 ⟨rfl, hst3⟩
          refine ih _ ?_ (k + 1) (j + 1) _ _ _ _ rfl (hnext.ask hm (by omega)) hst3 (Or.inr (by omega)) ?_
          · omega
          · exact ⟨fun h => absurd h Bool.false_ne_true, fun h => absurd h (by omega)⟩
      · dsimp only
        rw [if_neg hreq]
        refine ih _ ?_ k (j + 1) _ _ _ _ rfl hnext hst'' (Or.inl (Nat.eq_zero_of_not_pos hreq)) ?_
        · omega
        · exact ⟨fun h => absurd h Bool.false_ne_true, fun h => absurd h (by omega)⟩
    · rw [if_neg hread]
      have hzero := Nat.eq_zero_of_not_pos hread
      have hbehind : toRequest = 0 ∨ j < k := by omega
      obtain ⟨hreq, rfl, rfl⟩ := hcounts.done hm hkn hjk hzero hbehind
      exact ⟨h, hfirst, by rw [hreq, hzero]⟩

/-! ### The whole burst -/

theorem readShots_reading (st : BurstState) (flags : Word) :
    BurstEnds (ReadFails ctrl hooks size) (readShots ctrl hooks st flags size) fun st' =>
      Reading ctrl hooks size st' (Pieces.count ctrl.maxBytesPerRead.val size)
          (Pieces.count ctrl.maxBytesPerRead.val size) ∧
        (st'.isFirstShot = true ↔ Pieces.count ctrl.maxBytesPerRead.val size = 0) ∧
        st'.isLastShot = false := by
  have hidle : Trace (ctrl.readProtocol size)
      ([] ++ [⟨.handlePreBurstFlags flags, flags.setWidth 8, st.isFirstShot, st.isLastShot⟩]) 0 0 :=
    Trace.idle Trace.start ⟨rfl, rfl⟩
  unfold readShots
  apply BurstEnds.bind (attempt_reading allAnswered_nil rfl hidle)
  rintro st' ⟨-, hst'⟩
  have hcounts : ReadCounts ctrl.maxBytesPerRead.val size 0 0 0 size 0 := ⟨by omega, by omega, by omega⟩
  apply BurstEnds.bind (requestAhead_reading _ 0 st' size 0 hcounts hst' (Nat.add_zero _))
  rintro ⟨st1, toRequest, toRead⟩ ⟨k, hk, hst1, hfull⟩
  have hqueue : toRequest = 0 ∨ k = 0 + ctrl.readQueueSize.val := by
    rw [Nat.zero_add]
    exact hfull
  have hread := readAndRequest_reading _ k 0 _ 0 toRequest toRead rfl hk (hst1.setShot true st1.isLastShot)
    hqueue ⟨fun _ => rfl, fun _ => rfl⟩
  apply BurstEnds.bind hread
  rintro ⟨st2, _, _⟩ ⟨hst2, hfirst, -⟩
  exact ⟨hst2.setShot st2.isFirstShot false, hfirst, rfl⟩

section Called
variable {Q : List BurstCall → Prop}

theorem requestAhead_keeps
    (hrequest : ∀ (st : BurstState) numBytes, Q st.calls → Q (st.record (.requestRead numBytes)).calls)
    (todo : Nat) : ∀ i st toRequest toRead, Q st.calls →
      BurstEnds (fun st => Q st.calls) (requestAhead ctrl hooks size todo i st toRequest toRead)
        fun r => Q r.1.calls := by
  induction todo with
  | zero => exact fun i st toRequest toRead h => h
  | succ todo ih =>
    intro i st toRequest toRead h
    rw [requestAhead]
    split_ifs
    · apply BurstEnds.bind (attempt_keeps (hrequest (st.setShot (decide (i = 0))
        (decide (toRead + min toRequest ctrl.maxBytesPerRead.val = size))) _ h))
      intro st' hst'
      exact ih (i + 1) st' _ _ hst'
    · exact h

theorem readAndRequest_keeps
    (hrequest : ∀ (st : BurstState) numBytes, Q st.calls → Q (st.record (.requestRead numBytes)).calls)
    (hread : ∀ (st : BurstState) buf numBytes, Q st.calls → Q (st.record (.readShot buf numBytes)).calls)
    (n : Nat) : ∀ st buf toRequest toRead, toRequest + toRead = n → Q st.calls →
      BurstEnds (fun st => Q st.calls) (readAndRequest ctrl hooks buf st toRequest toRead)
        fun r => Q r.1.calls := by
  have hm := ctrl.maxBytesPerRead.pos
  induction n using Nat.strong_induction_on with
  | _ n ih =>
    intro st buf toRequest toRead hn h
    rw [readAndRequest]
    by_cases hmore : 0 < toRead
    · rw [if_pos hmore]
      apply BurstEnds.bind (attempt_keeps (hread (st.setShot st.isFirstShot
        (decide (toRequest = 0 ∧ toRead ≤ ctrl.maxBytesPerRead.val))) _ _ h))
      intro st' hst'
      by_cases hreq : 0 < toRequest
      · dsimp only
        rw [if_pos hreq]
        apply BurstEnds.bind (attempt_keeps (hrequest (st'.setShot false st'.isLastShot) _ hst'))
        intro st'' hst''
        exact ih _ (by omega) st'' _ _ _ rfl hst''
      · dsimp only
        rw [if_neg hreq]
        exact ih _ (by omega) _ _ _ _ rfl hst'
    · rw [if_neg hmore]
      exact h

/-- What holds of the calls of a read burst up to its end. -/
theorem readShots_keeps (st : BurstState) (flags : Word)
    (hflags : Q [⟨.handlePreBurstFlags flags, flags.setWidth 8, st.isFirstShot, st.isLastShot⟩])
    (hrequest : ∀ (st : BurstState) numBytes, Q st.calls → Q (st.record (.requestRead numBytes)).calls)
    (hread : ∀ (st : BurstState) buf numBytes, Q st.calls → Q (st.record (.readShot buf numBytes)).calls) :
    BurstEnds (fun st => Q st.calls) (readShots ctrl hooks st flags size) fun st => Q st.calls := by
  unfold readShots
  apply BurstEnds.bind (attempt_keeps hflags)
  intro st₁ hst₁
  apply BurstEnds.bind (requestAhead_keeps hrequest _ 0 st₁ size 0 hst₁)
  rintro ⟨st₂, toRequest, toRead⟩ hst₂
  apply BurstEnds.bind (readAndRequest_keeps hrequest hread _ (st₂.setShot true st₂.isLastShot) 0
    toRequest toRead
    rfl hst₂)
  rintro ⟨st₃, _, _⟩ hst₃
  exact hst₃

/-- A read burst calls no hooks but those for the flags, the requests and the results, and that for the abort. -/
theorem ctrlReadBurst_calls {P : HookCall → Prop} (ctrl : ControllerBase) (hooks : Hooks) (st : BurstState)
    (flags : Word) (size : Nat) (hpre : P (.handlePreBurstFlags flags))
      (hpost : P (.handlePostBurstFlags flags))
    (hrequest : ∀ numBytes, P (.requestRead numBytes)) (hread : ∀ buf numBytes, P (.readShot buf numBytes))
    (habort : P .burstAborted) : CalledOnly P (ctrlReadBurst ctrl hooks st flags size).2 := by
  apply finishBurst_calls ?_ hpost habort
  apply readShots_keeps (Q := fun calls => ∀ call ∈ calls, P call.hook)
  · intro call hmem
    rw [List.mem_singleton.mp hmem]
    exact hpre
  · exact fun st numBytes h => CalledOnly.record h (hrequest numBytes)
  · exact fun st buf numBytes h => CalledOnly.record h (hread buf numBytes)

/-- The hooks for the requests and the results. -/
def HookCall.ReadsOnly (hook : HookCall) : Prop :=
  (∃ numBytes, hook = .requestRead numBytes) ∨ ∃ buf numBytes, hook = .readShot buf numBytes

/-- The flags come first and last, or the abort does. -/
theorem ctrlReadBurst_shape (ctrl : ControllerBase) (hooks : Hooks) (st : BurstState) (flags : Word)
    (size : Nat) :
    ∃ (first : BurstCall) (body : List BurstCall) (last : BurstCall),
      (ctrlReadBurst ctrl hooks st flags size).2.calls = first :: body ++ [last] ∧
      first.hook = .handlePreBurstFlags flags ∧ (∀ call ∈ body, call.hook.ReadsOnly) ∧
        (last.hook = .handlePostBurstFlags flags ∨ last.hook = .burstAborted) := by
  have hkeeps : BurstEnds (fun st => ∃ first body, st.calls = first :: body ∧
      first.hook = .handlePreBurstFlags flags ∧ ∀ call ∈ body, call.hook.ReadsOnly)
      (readShots ctrl hooks st flags size) (fun st => ∃ first body, st.calls = first :: body ∧
        first.hook = .handlePreBurstFlags flags ∧ ∀ call ∈ body, call.hook.ReadsOnly) := by
    have hrecord : ∀ (st : BurstState) (hook : HookCall), hook.ReadsOnly →
        (∃ first body, st.calls = first :: body ∧ first.hook = .handlePreBurstFlags flags ∧
          ∀ call ∈ body, call.hook.ReadsOnly) →
        ∃ first body, (st.record hook).calls = first :: body ∧ first.hook = .handlePreBurstFlags flags ∧
          ∀ call ∈ body, call.hook.ReadsOnly := by
      rintro st hook hreads ⟨first, body, hcalls, hfirst, hbody⟩
      refine ⟨first, body ++ [⟨hook, st.currentBurstFlags, st.isFirstShot, st.isLastShot⟩], ?_, hfirst, ?_⟩
      · rw [BurstState.record, hcalls]
        rfl
      · intro call hmem
        rcases List.mem_append.mp hmem with hmem | hmem
        · exact hbody call hmem
        · rw [List.mem_singleton.mp hmem]
          exact hreads
    apply readShots_keeps (Q := fun calls => ∃ first body, calls = first :: body ∧
      first.hook = .handlePreBurstFlags flags ∧ ∀ call ∈ body, call.hook.ReadsOnly)
    · exact ⟨_, [], rfl, rfl, fun call hmem => absurd hmem List.not_mem_nil⟩
    · exact fun st numBytes => hrecord st _ (.inl ⟨numBytes, rfl⟩)
    · exact fun st buf numBytes => hrecord st _ (.inr ⟨buf, numBytes, rfl⟩)
  unfold ctrlReadBurst
  cases hr : readShots ctrl hooks st flags size with
  | ok st' =>
    rw [hr] at hkeeps
    obtain ⟨first, body, hcalls, hfirst, hbody⟩ := hkeeps
    refine ⟨first, body, ⟨.handlePostBurstFlags flags, st'.currentBurstFlags, st'.isFirstShot, st'.isLastShot⟩, ?_,
      hfirst, hbody, .inl rfl⟩
    simp only [finishBurst, BurstState.record, hcalls]
  | error st' =>
    rw [hr] at hkeeps
    obtain ⟨first, body, hcalls, hfirst, hbody⟩ := hkeeps
    refine ⟨first, body, BurstCall.aborted, ?_, hfirst, hbody, .inr rfl⟩
    simp only [finishBurst, ctrlCleanupBurstState, BurstState.record, hcalls]
    rfl

end Called

theorem readShots_settles (ctrl : ControllerBase) (hooks : Hooks) (st : BurstState) (flags : Word)
    (size : Nat) :
    Settles hooks (readShots ctrl hooks st flags size) := by
  have hshots : BurstEnds (ReadFails ctrl hooks size) (readShots ctrl hooks st flags size) _ :=
    readShots_reading st flags
  cases hr : readShots ctrl hooks st flags size with
  | ok st' =>
    rw [hr] at hshots
    exact hshots.1.allAnswered
  | error st' =>
    rw [hr] at hshots
    exact hshots.2

theorem ctrlReadBurst_ends (ctrl : ControllerBase) (hooks : Hooks) (st : BurstState) (flags : Word)
    (size : Nat) :
    EndsOnFailure hooks (ctrlReadBurst ctrl hooks st flags size).1
      (ctrlReadBurst ctrl hooks st flags size).2 :=
  finishBurst_ends (readShots_settles ctrl hooks st flags size)

theorem requested_eq (h : Trace (ctrl.readProtocol size) calls k j) :
    requested calls = (List.range k).map (Pieces.length ctrl.maxBytesPerRead.val size) := by
  refine h.asked ?_ ?_ fun call hidle => hidle.1
  · rintro i call ⟨hhook, -⟩
    rw [hhook]
    rfl
  · rintro i call ⟨hhook, -⟩
    rw [hhook]
    rfl

theorem collected_eq (h : Trace (ctrl.readProtocol size) calls k j) :
    collected calls = (List.range j).map fun i =>
      (i * ctrl.maxBytesPerRead.val, Pieces.length ctrl.maxBytesPerRead.val size i) := by
  refine h.taken ?_ ?_ fun call hidle => hidle.2
  · rintro i call ⟨hhook, -⟩
    rw [hhook]
    rfl
  · rintro i call ⟨hhook, -⟩
    rw [hhook]
    rfl

theorem collected_contiguous (h : Trace (ctrl.readProtocol size) calls k j) :
    Pieces.Contiguous 0 (collected calls) (min size (j * ctrl.maxBytesPerRead.val)) := by
  obtain ⟨hjk, -, hk⟩ := h.bounds
  rw [collected_eq h]
  exact Pieces.contiguous_range ctrl.maxBytesPerRead.pos (Nat.le_trans hjk hk)

theorem collected_aligned (h : Trace (ctrl.readProtocol size) calls k j) :
    (collected calls).map Prod.snd <+: requested calls := by
  rw [requested_eq h, collected_eq h, List.map_map]
  obtain ⟨out, rfl⟩ := Nat.exists_eq_add_of_le h.bounds.1
  rw [List.range_add, List.map_append]
  exact List.prefix_append _ _

/-- The results of a burst are those of the first pieces, and if it succeeds those of all. -/
theorem ctrlReadBurst_collected (ctrl : ControllerBase) (hooks : Hooks) (st : BurstState) (flags : Word)
    (size : Nat) :
    ∃ j ≤ Pieces.count ctrl.maxBytesPerRead.val size,
      collected (ctrlReadBurst ctrl hooks st flags size).2.calls =
        (List.range j).map (fun i => (i * ctrl.maxBytesPerRead.val, Pieces.length ctrl.maxBytesPerRead.val size i)) ∧
      ((ctrlReadBurst ctrl hooks st flags size).1 = STATUS_OK → j = Pieces.count ctrl.maxBytesPerRead.val size) := by
  have hshots : BurstEnds (ReadFails ctrl hooks size) (readShots ctrl hooks st flags size) _ :=
    readShots_reading st flags
  have hne : ¬STATUS_ERROR = STATUS_OK := by decide
  unfold ctrlReadBurst
  cases hr : readShots ctrl hooks st flags size with
  | ok st' =>
    rw [hr] at hshots
    exact ⟨_, Nat.le_refl _, collected_eq (Trace.idle hshots.1.trace ⟨rfl, rfl⟩), fun _ => rfl⟩
  | error st' =>
    rw [hr] at hshots
    obtain ⟨⟨k, j, htrace⟩, -⟩ := hshots
    have hbounds := htrace.bounds
    exact ⟨j, Nat.le_trans hbounds.1 hbounds.2.2, collected_eq (Trace.idle htrace ⟨rfl, rfl⟩),
      fun h => absurd h hne⟩

theorem readFlags_of_trace (h : Trace (ctrl.readProtocol size) calls k j) {call : BurstCall}
    {buf numBytes : Nat} (hp : before ++ [call] <+: calls) (hcall : call.hook = .readShot buf numBytes) :
    (call.isFirstShot = true ↔ collected before = []) ∧ (call.isLastShot = true ↔ buf + numBytes = size) := by
  have hm := ctrl.maxBytesPerRead.pos
  obtain ⟨_, _, hcut⟩ := h.of_prefix hp
  obtain ⟨k', j', hbefore, ⟨hask, -⟩ | ⟨⟨htake, hfirst, hlast⟩, hlt⟩ | ⟨-, hidle⟩⟩ := hcut.of_concat
  · rw [hcall] at hask
    exact absurd hask (by simp)
  · rw [hcall] at htake
    obtain ⟨rfl, rfl⟩ := HookCall.readShot.inj htake
    have hj : j' < Pieces.count ctrl.maxBytesPerRead.val size := Nat.lt_of_lt_of_le hlt hbefore.bounds.2.2
    refine ⟨?_, hlast.trans (Pieces.ends_iff hm hj)⟩
    rw [hfirst, collected_eq hbefore]
    simp
  · rw [hcall] at hidle
    exact absurd hidle (by simp [HookCall.collected])

theorem requestFlags_of_trace (h : Trace (ctrl.readProtocol size) calls k j) {call : BurstCall}
    {numBytes : Nat} (hp : before ++ [call] <+: calls) (hcall : call.hook = .requestRead numBytes) :
    (call.isFirstShot = true ↔ requested before = []) ∧
      (call.isLastShot = true → (requested before).sum + numBytes = size) := by
  have hm := ctrl.maxBytesPerRead.pos
  obtain ⟨_, _, hcut⟩ := h.of_prefix hp
  obtain ⟨k', j', hbefore, ⟨hask, hfirst, hlast⟩ | ⟨⟨htake, -⟩, -⟩ | ⟨hidle, -⟩⟩ := hcut.of_concat
  · rw [hcall] at hask
    obtain rfl := HookCall.requestRead.inj hask
    refine ⟨?_, fun hraised => ?_⟩
    · rw [hfirst, requested_eq hbefore]
      simp
    · rw [requested_eq hbefore, Pieces.sum_length, Pieces.min_add_length, hlast hraised]
      exact Nat.min_eq_left (Pieces.count_mul_ge hm)
  · rw [hcall] at htake
    exact absurd htake (by simp)
  · rw [hcall] at hidle
    exact absurd hidle (by simp [HookCall.requested])

/-- Every burst of the pipeline is what a read burst should be. -/
theorem pipelinedRead_of_trace {ret : Int} (h : Trace (ctrl.readProtocol size) st.calls k j)
    (hdone : ret = STATUS_OK → k = Pieces.count ctrl.maxBytesPerRead.val size ∧ j = k)
    (hlowered : ret = STATUS_OK → 0 < size →
      st.currentBurstFlags = 0 ∧ st.isFirstShot = false ∧ st.isLastShot = false)
    (hends : EndsOnFailure hooks ret st) : PipelinedRead ctrl hooks size ret st where
  total hok := by
    rw [requested_eq h, (hdone hok).1]
    exact Pieces.sum_length_count ctrl.maxBytesPerRead.pos
  bounded := by
    intro numBytes hmem
    rw [requested_eq h] at hmem
    obtain ⟨i, hi, rfl⟩ := List.mem_map.mp hmem
    have hlt := Nat.lt_of_lt_of_le (List.mem_range.mp hi) h.bounds.2.2
    have hm := ctrl.maxBytesPerRead.pos
    exact ⟨Pieces.length_pos hm ((Pieces.lt_count_iff hm).mp hlt), Pieces.length_le⟩
  outstanding := by
    intro before hp
    obtain ⟨k', j', hbefore⟩ := h.of_prefix hp
    rw [requested_eq hbefore, collected_eq hbefore]
    simpa using ⟨hbefore.bounds.1, hbefore.bounds.2.1⟩
  aligned := collected_aligned h
  answered hok := by
    rw [requested_eq h, collected_eq h, (hdone hok).2]
    simp
  contiguous := ⟨_, Nat.min_le_left _ _, collected_contiguous h⟩
  covered hok := by
    have hrange := collected_contiguous h
    obtain ⟨hk, hj⟩ := hdone hok
    rw [hj, hk, Nat.min_eq_left (Pieces.count_mul_ge ctrl.maxBytesPerRead.pos)] at hrange
    exact hrange
  readFlags _ _ _ _ hp hcall := readFlags_of_trace h hp hcall
  requestFlags _ _ _ hp hcall := requestFlags_of_trace h hp hcall
  lowered := hlowered
  ends := hends

/-- Requests and results stay in step for all sizes, depths and lengths of a shot, whatever the hooks
report. -/
theorem ctrlReadBurst_pipelined (ctrl : ControllerBase) (hooks : Hooks) (st : BurstState) (flags : Word)
    (size : Nat) :
    PipelinedRead ctrl hooks size (ctrlReadBurst ctrl hooks st flags size).1
      (ctrlReadBurst ctrl hooks st flags size).2 := by
  have hshots : BurstEnds (ReadFails ctrl hooks size) (readShots ctrl hooks st flags size) _ :=
    readShots_reading st flags
  unfold ctrlReadBurst
  cases hr : readShots ctrl hooks st flags size with
  | ok st' =>
    rw [hr] at hshots
    obtain ⟨hst', hfirst, hlast⟩ := hshots
    refine pipelinedRead_of_trace (Trace.idle hst'.trace ⟨rfl, rfl⟩) (fun _ => ⟨rfl, rfl⟩) ?_
      (finishBurst_ok hst'.allAnswered)
    intro _ hpos
    refine ⟨rfl, ?_, hlast⟩
    have hcount : 0 < Pieces.count ctrl.maxBytesPerRead.val size := by
      rw [Pieces.lt_count_iff ctrl.maxBytesPerRead.pos]
      omega
    exact Bool.eq_false_iff.mpr fun h => absurd (hfirst.mp h) (by omega)
  | error st' =>
    rw [hr] at hshots
    obtain ⟨⟨k, j, htrace⟩, hsettles⟩ := hshots
    have hne : ¬STATUS_ERROR = STATUS_OK := by decide
    exact pipelinedRead_of_trace (Trace.idle htrace ⟨rfl, rfl⟩) (fun h => absurd h hne)
      (fun h => absurd h hne) (finishBurst_ends hsettles)

end MenableDriver
