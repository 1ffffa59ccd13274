import MenableDriver.Dma.Locks

/-!
# The timer of a channel and the locks

`hrtimer_cancel` waits until a running callback has returned, and the callback
`men_dma_timeout` begins with `buffer_heads_lock` and the `chanlock`. Here a call that ends in
`men_dma_clean_sync` is cut at its `hrtimer_cancel`: `lock` brings it there with the two locks
taken, `finish` takes it further. The interrupt handler stands at its `hrtimer_cancel`
after the `listlock` section that found frames left to transfer. The handler `me5_irq` has all
its frames in one `listlock` section and is the same as `me6_dma_irq` otherwise.
-/

namespace MenableDriver

set_option autoImplicit false

open Transition

/-- What `me5_irq` does with one frame: it does not ask for the dummy buffer. -/
def me5Frame (m : Men) (c : ChanRef) (ts len tag : Nat) : Res Men := do
  let (m, sb) ← menMoveHot m c ts
  match sb with
  | none => .ok m
  | some b =>
    .ok (m.modBuf b fun sb =>
      { sb with
        dmaLength := len
        dmaTag := tag
        frameNumber := (m.chan c).latestFrameNumber })

/-- The length and the tag that the device has for a frame. -/
structure FrameInfo where
  len : Nat
  tag : Nat

def me5Frames (m : Men) (c : ChanRef) (ts : Nat) : List FrameInfo → Res Men
  | [] => .ok m
  | f :: fs => do
    let m ← me5Frame m c ts f.len f.tag
    me5Frames m c ts fs

/-- The calls that can get to `men_dma_clean_sync`. -/
def Call.cleans : Call → Bool
  | .startTail .. | .startResume .. | .startRest .. | .workRun _ => true
  | _ => false

def Men.setTiming (m : Men) (c : ChanRef) (timing : Bool) : Men :=
  m.setChan c { m.chan c with timing := timing }

def waits {α : Type} : Res α → Bool
  | .error .blocked => true
  | _ => false

/-- The call gets to `hrtimer_cancel` of the timer of `c`: it waits if the callback runs, and
does not wait if it does not run. -/
def Call.cancels (k : Call) (m : Men) (c : ChanRef) : Bool :=
  waits (call (m.setTiming c true) k) && !waits (call (m.setTiming c false) k)

/-- The driver, and the call that stands at `hrtimer_cancel` of a channel inside
`men_dma_clean_sync`: it holds `buffer_heads_lock` and the `chanlock`. -/
structure TimerSys where
  sys : Sys
  cleaner : Option (Call × ChanRef) := none

inductive TimerEvent where
  | go (e : Event)
  | me5Frames (c : ChanRef) (ts : Nat) (fs : List FrameInfo)
  | lock (k : Call) (c : ChanRef)
  | finish

/-- The event needs neither `buffer_heads_lock` nor the `chanlock` of the channel. -/
def Event.spares (c : ChanRef) : Event → Bool
  | .run k =>
    match k with
    | .destroySb _ | .destroyHead _ | .openFile .. | .startCancel _ | .waitEnter .. | .waitLeave ..
    | .timerExpire _ | .workTake _ | .irqOverflow _ => true
    | .irqFrame c' .. | .irqScan c' _ | .irqRearm c' | .irqFinish c' | .irqLost c' _ => decide (c' ≠ c)
    | _ => false
  | .irqEnter c' _ => decide (c' ≠ c)

def TimerSys.mayGo (s : TimerSys) (e : Event) : Bool :=
  match s.cleaner with
  | none => true
  | some (_, c) => e.spares c

def timerStep (s : TimerSys) : TimerEvent → Except Halt TimerSys
  | .go e =>
    if s.mayGo e then do
      let sys ← step s.sys e
      .ok { s with sys := sys }
    else .error .blocked
  | .me5Frames c ts fs =>
    if s.sys.irq c = some (.frames fs.length fs.length) then do
      let m ← me5Frames s.sys.men c ts fs
      .ok
        { s with sys := { s.sys with
            men := m
            irq := Function.update s.sys.irq c (some (.frames 0 fs.length)) } }
    else .error .blocked
  | .lock k c =>
    if s.cleaner = none ∧ k.cleans ∧ s.sys.ready k ∧ k.cancels s.sys.men c then
      .ok { s with cleaner := some (k, c) }
    else .error .blocked
  | .finish =>
    match s.cleaner with
    | none => .error .blocked
    | some (k, _) => do
      let sys ← step s.sys (.run k)
      .ok { sys := sys }

/-- A context that holds the `chanlock` of the channel stands at its `hrtimer_cancel`. -/
def TimerSys.Cancelling (s : TimerSys) (c : ChanRef) : Prop :=
  (∃ k, s.cleaner = some (k, c)) ∨
    s.sys.irq c = some (.scanned false) ∧ (s.sys.men.chan c).timeout ≠ 0

/-- The callback of a timer waits for a lock, and the holder of the lock waits for the callback. -/
def TimerDeadlock (s : TimerSys) : Prop := ∃ c, s.Cancelling c ∧ (s.sys.men.chan c).timing = true

/-- No timer expires while somebody stands at its `hrtimer_cancel`, and nobody gets there
while its callback waits for the locks. -/
def TimerSafe (s : TimerSys) : TimerEvent → Prop
  | .go (.run (.timerExpire c)) => ¬ s.Cancelling c
  | .go (.run (.irqScan c _)) => (s.sys.men.chan c).timing = true →
      (s.sys.men.chan c).timeout = 0 ∨ (s.sys.men.chan c).transferTodo ≤ 0
  | .lock _ c => (s.sys.men.chan c).timing = false
  | _ => True

section Calls
variable {m m' : Men} {o : Outcome} {c : ChanRef} {k : Call}

/-- Only the expiry of a timer calls its callback. -/
theorem ChanStep.timing {ch ch' : Dmachan} (h : ChanStep c k o ch ch') (hk : k ≠ .timerExpire c)
    (ht : ch'.timing = true) : ch.timing = true := by
  cases h with
  | still _ h =>
    obtain ⟨_, _, _, _, _, _, _, _, rfl⟩ := h.control
    exact ht
  | frame h =>
    obtain ⟨_, _, _, _, _, _, _, _, rfl⟩ := h.control
    exact ht
  | startDone _ _ h => exact h.timing ▸ ht
  | startFailed _ _ h => exact h.timing ▸ ht
  | stopped h | closed h => cases h <;> exact ht
  | irqScanned _ h =>
    obtain ⟨_, _, _, _, _, _, _, _, rfl⟩ := h.quiet.control
    exact ht
  | timerExpired => exact absurd rfl hk
  | timedOut => cases ht
  | _ => exact ht

/-- Only a start sets the time after which the timer of its channel expires. -/
theorem ChanStep.timeout {ch ch' : Dmachan} (h : ChanStep c k o ch ch')
    (hk : ∀ w current, k.Starts w current → w.chan ≠ c) : ch'.timeout = ch.timeout := by
  cases h with
  | still _ h => exact h.control.timeout
  | frame h => exact h.control.timeout
  | startDone hs hc => exact absurd hc (hk _ _ hs)
  | startFailed hs hc => exact absurd hc (hk _ _ hs)
  | stopped h | closed h => cases h <;> rfl
  | irqScanned _ h => exact h.quiet.control.timeout
  | _ => rfl

theorem me5Frame_frame {ts len tag : Nat} (h : me5Frame m c ts len tag = .ok m') : ListFrame c m m' := by
  obtain ⟨⟨m₁, sb⟩, h₁, h⟩ := bind_ok.mp h
  have hf := menMoveHot_frame h₁
  cases sb with
  | none =>
    cases h
    exact hf
  | some b =>
    cases h
    exact hf.trans (MoveFrame.modBuf rfl).lists

theorem me5Frames_frame {ts : Nat} {fs : List FrameInfo} (h : me5Frames m c ts fs = .ok m') :
    ListFrame c m m' := by
  induction fs generalizing m with
  | nil =>
    cases h
    exact (MoveFrame.refl c _).lists
  | cons f fs ih =>
    obtain ⟨m₁, h₁, h⟩ := bind_ok.mp h
    exact (me5Frame_frame h₁).trans (ih h)

theorem ListFrame.timer (hf : ListFrame c m m') (c' : ChanRef) :
    (m'.chan c').timing = (m.chan c').timing ∧ (m'.chan c').timeout = (m.chan c').timeout := by
  by_cases hc : c' = c
  · subst hc
    obtain ⟨_, _, _, _, _, _, _, _, he⟩ := hf.self.control
    rw [he]
    exact ⟨rfl, rfl⟩
  · rw [hf.other c' hc]
    exact ⟨rfl, rfl⟩

end Calls

section Steps
variable {s t : Sys} {c : ChanRef} {k : Call}

theorem step_timing {e : Event} (h : step s e = .ok t) (he : e ≠ .run (.timerExpire c))
    (ht : (t.men.chan c).timing = true) : (s.men.chan c).timing = true := by
  cases e with
  | run k =>
    obtain ⟨m, o, hcall, _, rfl⟩ := step_run h
    exact (call_chan hcall c).timing (fun hk => he (by rw [hk])) ht
  | irqEnter c' newFrames =>
    obtain ⟨_, _, rfl⟩ := step_irqEnter h
    exact ht

/-- The interrupt handler gets to its `hrtimer_cancel` by its second `listlock` section only. -/
theorem step_rearming {e : Event} (hl : Locked s) (h : step s e = .ok t) (he : ∀ n, e ≠ .run (.irqScan c n))
    (hpc : t.irq c = some (.scanned false)) :
    s.irq c = some (.scanned false) ∧ (t.men.chan c).timeout = (s.men.chan c).timeout := by
  cases e with
  | irqEnter c' newFrames =>
    obtain ⟨_, _, rfl⟩ := step_irqEnter h
    by_cases hc : c = c'
    · subst hc
      simp at hpc
    · simp only [Function.update_of_ne hc] at hpc
      exact ⟨hpc, rfl⟩
  | run k =>
    obtain ⟨m, o, hcall, hr, rfl⟩ := step_run h
    have hbusy : s.irq c ≠ none := fun hn => by
      have hnone := nextIrq_none (o := o) hr hn
      simp only [hnone, reduceCtorEq] at hpc
    refine ⟨?_, (call_chan hcall c).timeout fun w current hs hc => hbusy ?_⟩
    · cases k with
      | irqFrame c' ts len tag =>
        by_cases hc : c = c'
        · subst hc
          cases hpc' : s.irq c with
          | none => exact absurd hpc' hbusy
          | some pc =>
            cases pc with
            | scanned finish => simpa [Sys.nextIrq, hpc'] using hpc
            | frames left newFrames => cases left <;> simp [Sys.nextIrq, hpc'] at hpc
        · cases hpc' : s.irq c' with
          | none => simpa [Sys.nextIrq, hpc'] using hpc
          | some pc =>
            cases pc with
            | scanned finish => simpa [Sys.nextIrq, hpc'] using hpc
            | frames left newFrames => cases left <;> simpa [Sys.nextIrq, hpc', hc] using hpc
      | irqScan c' n =>
        have hc : c ≠ c' := by
          rintro rfl
          exact he n rfl
        cases o <;> simpa [Sys.nextIrq, Function.update_of_ne hc] using hpc
      | irqRearm c' | irqFinish c' =>
        by_cases hc : c = c'
        · subst hc
          simp [Sys.nextIrq] at hpc
        · simpa [Sys.nextIrq, Function.update_of_ne hc] using hpc
      | _ => exact hpc
    · subst hc
      cases hs with
      | tail hw =>
        simp only [Sys.ready, Bool.and_eq_true, irqIdle_iff] at hr
        exact hr.2
      | rest hw =>
        simp only [Sys.ready, decide_eq_true_eq] at hr
        exact hl.chan w.chan (by rw [hr]; rfl)

/-- The second section goes on to the `hrtimer_cancel` when frames are left and a timeout is set. -/
theorem step_irqScan {n : Nat} (h : step s (.run (.irqScan c n)) = .ok t) :
    (t.men.chan c).timing = (s.men.chan c).timing ∧ (t.men.chan c).timeout = (s.men.chan c).timeout ∧
      (t.irq c = some (.scanned false) ↔ 0 < (s.men.chan c).transferTodo) := by
  obtain ⟨m, o, hcall, _, rfl⟩ := step_run h
  obtain ⟨⟨m₁, finish⟩, h₁, hcall⟩ := bind_ok.mp hcall
  cases hcall
  obtain ⟨_, _, _, _, _, _, _, _, he⟩ := (irqScan_frame h₁).self.quiet.control
  simp only [scanMarked, Men.setChan_chan, if_true] at he
  refine ⟨by simp only [he], by simp only [he], ?_⟩
  rcases irqScan_cases h₁ with ⟨htodo, rfl, _⟩ | ⟨htodo, rfl, _⟩
  · simpa [Sys.nextIrq] using htodo
  · simpa [Sys.nextIrq] using htodo

end Steps

section Runs
variable {s t : TimerSys} {e : TimerEvent}

/-- In a deadlock the callback does not get its locks. -/
theorem cancelling_callback_waits {c : ChanRef} (hc : s.Cancelling c) :
    timerStep s (.go (.run (.timerRun c))) = .error .blocked := by
  simp only [timerStep]
  split_ifs with hgo
  · rcases hc with ⟨k, hk⟩ | ⟨hpc, _⟩
    · simp [TimerSys.mayGo, hk, Event.spares] at hgo
    · simp [step, Sys.ready, Sys.irqIdle, hpc]
      rfl
  · rfl

/-- And the interrupt handler waits for the callback. -/
theorem rearm_waits {c : ChanRef} (hto : (s.sys.men.chan c).timeout ≠ 0)
    (ht : (s.sys.men.chan c).timing = true) :
    call s.sys.men (.irqRearm c) = .error .blocked := by
  simp [call, irqRearm, hto, Dmachan.hrtimerCancel, ht, bind, Except.bind]

/-- So does the call that has just got to its `hrtimer_cancel`. -/
theorem lock_waits {k : Call} {c : ChanRef} (h : timerStep s (.lock k c) = .ok t)
    (ht : (s.sys.men.chan c).timing = true) : call t.sys.men k = .error .blocked := by
  simp only [timerStep] at h
  split_ifs at h with hready
  cases h
  have hsame : s.sys.men.setTiming c true = s.sys.men := by
    have hch : { s.sys.men.chan c with timing := true } = s.sys.men.chan c := by rw [← ht]
    rw [Men.setTiming, hch, Men.setChan, Function.update_eq_self]
  have hwait := hready.2.2.2
  rw [Call.cancels, hsame, Bool.and_eq_true] at hwait
  have hw := hwait.1
  unfold waits at hw
  split at hw
  · assumption
  · cases hw

structure TimersFree (s : TimerSys) : Prop where
  locked : Locked s.sys
  cleaner : ∀ k c, s.cleaner = some (k, c) → k.cleans = true
  free : ¬ TimerDeadlock s

/-- What can bring about a deadlock over the channel `c`, step by step. -/
theorem timerStep_deadlock (hs : TimersFree s) (hG : TimerSafe s e) (h : timerStep s e = .ok t)
    (hd : TimerDeadlock t) : TimerDeadlock s := by
  obtain ⟨c, hc, ht⟩ := hd
  refine ⟨c, ?_⟩
  cases e with
  | go e =>
    simp only [timerStep] at h
    split_ifs at h with hgo
    obtain ⟨sys, h₁, h⟩ := bind_ok.mp h
    cases h
    have hcanc : s.Cancelling c := by
      rcases hc with hk | ⟨hpc, hto⟩
      · exact .inl hk
      · by_cases hscan : ∃ n, e = .run (.irqScan c n)
        · obtain ⟨n, rfl⟩ := hscan
          obtain ⟨htiming, htimeout, hpc'⟩ := step_irqScan h₁
          have hto' : (s.sys.men.chan c).timeout ≠ 0 := htimeout ▸ hto
          rcases hG (htiming ▸ ht) with h0 | htodo
          · exact absurd h0 hto'
          · have hleft := hpc'.mp hpc
            omega
        · push Not at hscan
          obtain ⟨hpc', hto'⟩ := step_rearming hs.locked h₁ hscan hpc
          exact .inr ⟨hpc', hto' ▸ hto⟩
    refine ⟨hcanc, ?_⟩
    by_cases hexp : e = .run (.timerExpire c)
    · subst hexp
      exact absurd hcanc hG
    · exact step_timing h₁ hexp ht
  | me5Frames c' ts fs =>
    simp only [timerStep] at h
    split_ifs at h with hpc
    obtain ⟨m, h₁, h⟩ := bind_ok.mp h
    cases h
    obtain ⟨htiming, htimeout⟩ := (me5Frames_frame h₁).timer c
    refine ⟨?_, htiming ▸ ht⟩
    rcases hc with hk | ⟨hpc', hto⟩
    · exact .inl hk
    · refine .inr ⟨?_, htimeout ▸ hto⟩
      by_cases hcc : c = c'
      · subst hcc
        simp at hpc'
      · simpa [Function.update_of_ne hcc] using hpc'
  | lock k c' =>
    simp only [timerStep] at h
    split_ifs at h
    cases h
    refine ⟨?_, ht⟩
    rcases hc with ⟨k', hk'⟩ | hirq
    · cases hk'
      exact absurd (hG.symm.trans ht) (by simp)
    · exact .inr hirq
  | finish =>
    simp only [timerStep] at h
    split at h
    · cases h
    · rename_i k c' hk
      obtain ⟨sys, h₁, h⟩ := bind_ok.mp h
      cases h
      have hcleans := hs.cleaner k c' hk
      have hscan : ∀ n, Event.run k ≠ .run (.irqScan c n) := by
        rintro n he
        cases he
        cases hcleans
      have hexp : Event.run k ≠ .run (.timerExpire c) := by
        rintro he
        cases he
        cases hcleans
      rcases hc with ⟨k', hk'⟩ | ⟨hpc, hto⟩
      · cases hk'
      · obtain ⟨hpc', hto'⟩ := step_rearming hs.locked h₁ hscan hpc
        exact ⟨.inr ⟨hpc', hto' ▸ hto⟩, step_timing h₁ hexp ht⟩

theorem timerStep_locked (hs : TimersFree s) (h : timerStep s e = .ok t) :
    Locked t.sys ∧ ∀ k c, t.cleaner = some (k, c) → k.cleans = true := by
  cases e with
  | go e =>
    simp only [timerStep] at h
    split_ifs at h
    obtain ⟨sys, h₁, h⟩ := bind_ok.mp h
    cases h
    exact ⟨step_locked hs.locked h₁, hs.cleaner⟩
  | me5Frames c ts fs =>
    simp only [timerStep] at h
    split_ifs at h with hpc
    obtain ⟨m, h₁, h⟩ := bind_ok.mp h
    cases h
    refine ⟨⟨fun c' hc' => ?_, hs.locked.rest⟩, hs.cleaner⟩
    have hnone := hs.locked.chan c' hc'
    have hne : c' ≠ c := by
      rintro rfl
      rw [hpc] at hnone
      cases hnone
    simpa [hne] using hnone
  | lock k c =>
    simp only [timerStep] at h
    split_ifs at h with hready
    cases h
    refine ⟨hs.locked, fun k' c' hk => ?_⟩
    cases hk
    exact hready.2.1
  | finish =>
    simp only [timerStep] at h
    split at h
    · cases h
    · obtain ⟨sys, h₁, h⟩ := bind_ok.mp h
      cases h
      exact ⟨step_locked hs.locked h₁, fun k c hk => by cases hk⟩

/-- A step that is not safe leads into a deadlock. -/
theorem timerSafe_of_free (h : timerStep s e = .ok t) (hfree : ¬ TimerDeadlock t) : TimerSafe s e := by
  cases e with
  | go e =>
    simp only [timerStep] at h
    split_ifs at h
    obtain ⟨sys, h₁, h⟩ := bind_ok.mp h
    cases h
    cases e with
    | irqEnter => trivial
    | run k =>
      cases k with
      | timerExpire c =>
        intro hc
        obtain ⟨m, o, hcall, _, rfl⟩ := step_run h₁
        obtain ⟨m₁, h₂, hcall⟩ := bind_ok.mp hcall
        cases hcall
        obtain ⟨_, _, rfl⟩ := timerExpire_ok.mp h₂
        refine hfree ⟨c, ?_, by simp⟩
        exact hc.imp_right fun ⟨hpc, hto⟩ => ⟨hpc, by simpa using hto⟩
      | irqScan c n =>
        intro ht
        obtain ⟨htiming, htimeout, hpc⟩ := step_irqScan h₁
        by_contra hno
        rw [not_or] at hno
        refine hfree ⟨c, .inr ⟨hpc.mpr (by omega), ?_⟩, htiming.trans ht⟩
        simpa only [htimeout] using hno.1
      | _ => trivial
  | lock k c =>
    simp only [timerStep] at h
    split_ifs at h
    cases h
    by_contra ht
    exact hfree ⟨c, .inl ⟨k, rfl⟩, (Bool.not_eq_false _).mp ht⟩
  | me5Frames | finish => trivial

theorem timersFree_probe (activeFpgas : Nat) (dmacnt : List Nat) (fpga : ChanRef → Nat) (fifo : UInt32) :
    TimersFree { sys := sysProbe activeFpgas dmacnt fpga fifo } where
  locked := ⟨fun _ hc => (by cases hc), fun _ _ hh => (by cases hh)⟩
  cleaner _ _ hk := by cases hk
  free := by
    rintro ⟨c, ⟨k, hk⟩ | ⟨hpc, _⟩, _⟩
    · cases hk
    · cases hpc

/-- Runs are free of timer deadlocks exactly if every step of them is safe. -/
theorem timer_deadlock_iff (activeFpgas : Nat) (dmacnt : List Nat) (fpga : ChanRef → Nat) (fifo : UInt32)
    (es : List TimerEvent) :
    Always timerStep (fun s => ¬ TimerDeadlock s) { sys := sysProbe activeFpgas dmacnt fpga fifo } es ↔
      Meets timerStep TimerSafe { sys := sysProbe activeFpgas dmacnt fpga fifo } es := by
  refine always_iff_meets (P := TimersFree) (fun s hs => hs.free) (fun s e t hs h => ⟨fun hG => ?_, ?_⟩)
    (timersFree_probe ..) es
  · obtain ⟨hl, hcl⟩ := timerStep_locked hs h
    exact ⟨hl, hcl, fun hd => hs.free (timerStep_deadlock hs hG h hd)⟩
  · exact timerSafe_of_free h

end Runs

section Example

def timedFrames : FgCtrl :=
  { mode := 0x10, timeout := 1, transferTodo := 5, chan := 0, head := 0, startBuf := 0, dmaDir := 0 }

/-- The timer expires while the interrupt handler puts away a frame. -/
def expiryInHandler : List TimerEvent :=
  [.go (.run (.createHead 1 (some 7))),
    .go (.run (.addBuffer { start := 0, length := 4096, subnr := 0, headnr := 0 } (some 3))),
    .go (.run (.start timedFrames 0)), .go (.run (.startTail ⟨timedFrames, 7, 0⟩ .running 1)),
    .go (.irqEnter 0 1), .go (.run (.timerExpire 0)), .go (.run (.irqFrame 0 0 4096 0)),
    .go (.run (.irqScan 0 1))]

theorem timer_deadlock : ∃ t, run timerStep { sys := sysProbe 1 [1] (fun _ => 0) 8 } expiryInHandler = .ok t ∧
    TimerDeadlock t := by
  obtain ⟨t, ht, hp⟩ := exists_of_check timerStep { sys := sysProbe 1 [1] (fun _ => 0) 8 } expiryInHandler
    (fun t => decide (t.sys.irq 0 = some (.scanned false) ∧ (t.sys.men.chan 0).timeout ≠ 0 ∧
      (t.sys.men.chan 0).timing = true)) (by decide +kernel)
  obtain ⟨hpc, hto, htiming⟩ := of_decide_eq_true hp
  exact ⟨t, ht, 0, .inr ⟨hpc, hto⟩, htiming⟩

end Example

end MenableDriver
