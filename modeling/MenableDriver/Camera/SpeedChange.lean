import MenableDriver.Camera.Session

/-!
# Speed changes that are not acknowledged

The caches of a port are set before the board has acknowledged the new speed. When the wait for it times out
the request fails, but the caches keep the new speed, and a second request for it is answered from them.
-/

namespace MenableDriver

set_option autoImplicit false

open CxpFrontend History

/-- A status word has shown the port ready since its bit rate was written last. -/
def readySince (p : Nat) : List CxpEvent → Bool
  | [] => false
  | .statusRead status :: log => portReady status p || readySince p log
  | .bitrateWritten q :: log => q ≠ p && readySince p log
  | .changeTimedOut _ :: log => readySince p log

/-- The wait behind the last write of the bit rate has timed out, and no status word has shown the port ready
since then. -/
def changeUnacknowledged (p : Nat) : List CxpEvent → Bool
  | [] => false
  | .statusRead status :: log => !portReady status p && changeUnacknowledged p log
  | .bitrateWritten q :: log => q ≠ p && changeUnacknowledged p log
  | .changeTimedOut q :: log => q = p || changeUnacknowledged p log

/-- A request for a speed only succeeds for a port that is ready at the speed. -/
def SpeedAcknowledged (all : List CxpStep) : Prop :=
  ∀ st ∈ all, ∀ p speed, st.call = .dataPathSpeed p speed → st.answer = .ok → readySince p st.after.log

/-- No request is answered from the caches after a change that was not acknowledged. -/
def NoRepeatUnacknowledged (all : List CxpStep) : Prop :=
  ∀ st ∈ all, ∀ p speed, st.call = .dataPathSpeed p speed → AnsweredFromCaches st.before.frontend p speed →
    ¬changeUnacknowledged p st.before.log

/-! ## The log -/

variable {s s' : CxpSession} {p q : Nat} {speed : DataPathSpeed} {ret : CxpError} {log : List CxpEvent}

/-- Either the port was seen ready since the last write, or the wait behind it has timed out. -/
def Settled (p : Nat) (log : List CxpEvent) : Prop := readySince p log = !changeUnacknowledged p log

theorem Settled.statusRead (h : Settled p log) (status : BitVec 32) :
    Settled p (.statusRead status :: log) := by
  rw [Settled, readySince, changeUnacknowledged, h]
  cases portReady status p <;> rfl

theorem settled_of_ready {status : BitVec 32} (hready : portReady status p) :
    Settled p (.statusRead status :: log) := by
  rw [Settled, readySince, changeUnacknowledged, hready]
  rfl

theorem Settled.bitrateWritten (h : Settled p log) (hq : q ≠ p) : Settled p (.bitrateWritten q :: log) := by
  rw [Settled, readySince, changeUnacknowledged, decide_eq_true hq, Bool.true_and, Bool.true_and]
  exact h

theorem Settled.changeTimedOut (h : Settled p log) (hq : q ≠ p) : Settled p (.changeTimedOut q :: log) := by
  rw [Settled, readySince, changeUnacknowledged, decide_eq_false hq, Bool.false_or]
  exact h

theorem Settled.reads (h : Settled p log) (words : List StatusRead) :
    Settled p ((words.map fun read => CxpEvent.statusRead read.status) ++ log) := by
  induction words with
  | nil => exact h
  | cons read words ih => exact ih.statusRead read.status

theorem readySince_reads {words : List StatusRead} (hwords : ∀ read ∈ words, ¬portReady read.status p) :
    readySince p ((words.map fun read => CxpEvent.statusRead read.status) ++ log) = readySince p log := by
  induction words with
  | nil => rfl
  | cons read words ih =>
    have hread := hwords read List.mem_cons_self
    rw [List.map_cons, List.cons_append, readySince, Bool.eq_false_iff.mpr hread, Bool.false_or]
    exact ih fun read hmem => hwords read (List.mem_cons_of_mem _ hmem)

/-! ## The waits -/

theorem waitPort_settled (h : waitPortDataPathSpeedChangeDone s p = some (s', ret)) (hs : Settled q s.log) :
    Settled q s'.log := by
  obtain ⟨words, last, -, -, -, -, hlog⟩ := waitReads_eq_some h
  rw [hlog, List.cons_append, ← List.map_reverse]
  exact (hs.reads words.reverse).statusRead last.status

theorem waitPort_ready (h : waitPortDataPathSpeedChangeDone s p = some (s', .ok)) :
    readySince p s'.log ∧ Settled p s'.log := by
  obtain ⟨words, last, -, -, hret, -, hlog⟩ := waitReads_eq_some h
  have hready : portReady last.status p := by
    by_contra hno
    rw [waitResult, if_neg hno] at hret
    cases hret
  rw [hlog, List.cons_append]
  refine ⟨?_, settled_of_ready hready⟩
  rw [readySince, hready, Bool.true_or]

theorem waitPort_not_ready (h : waitPortDataPathSpeedChangeDone s p = some (s', ret)) (hret : ret ≠ .ok) :
    readySince p s'.log = readySince p s.log := by
  obtain ⟨words, last, -, hwords, hlast, -, hlog⟩ := waitReads_eq_some h
  have hnot : ¬portReady last.status p := by
    intro hready
    rw [waitResult, if_pos hready] at hlast
    exact hret hlast
  have hall : ∀ read ∈ last :: words.reverse, ¬portReady read.status p := by
    intro read hmem
    rcases List.mem_cons.mp hmem with rfl | hmem
    · exact hnot
    · exact hwords read (List.mem_reverse.mp hmem)
  have hsince : readySince p (((last :: words.reverse).map fun read => CxpEvent.statusRead read.status) ++
    s.log) =
      readySince p s.log := readySince_reads hall
  rw [hlog, ← List.map_reverse]
  exact hsince

/-- Whatever the second wait returns, the log tells whether the port is ready. -/
theorem changeDownlink_settled_self (h : changeDownlink s p speed = some (s', ret)) : Settled p s'.log := by
  obtain ⟨s₁, hwait, rfl⟩ := changeDownlink_eq_some h
  by_cases hret : ret = .ok
  · subst hret
    rw [if_pos rfl]
    exact (waitPort_ready hwait).2
  · rw [if_neg hret]
    have hnot := waitPort_not_ready hwait hret
    have hwritten : readySince p (.bitrateWritten p :: s.log) = false := by
      rw [readySince, decide_eq_false (not_not.mpr rfl), Bool.false_and]
    have hunack : changeUnacknowledged p (.changeTimedOut p :: s₁.log) = true := by
      rw [changeUnacknowledged, decide_eq_true rfl, Bool.true_or]
    exact (hnot.trans hwritten).trans (congrArg not hunack).symm

theorem changeDownlink_settled (h : changeDownlink s p speed = some (s', ret)) (hs : Settled q s.log) :
    Settled q s'.log := by
  by_cases hq : p = q
  · rw [← hq]
    exact changeDownlink_settled_self h
  · obtain ⟨s₁, hwait, rfl⟩ := changeDownlink_eq_some h
    have hs₁ := waitPort_settled hwait (hs.bitrateWritten hq)
    split_ifs
    · exact hs₁
    · exact hs₁.changeTimedOut hq

theorem changeDownlink_ready (h : changeDownlink s p speed = some (s', .ok)) : readySince p s'.log := by
  obtain ⟨s₁, hwait, rfl⟩ := changeDownlink_eq_some h
  exact (waitPort_ready hwait).1

/-! ## The sessions -/

/-- The log tells about every port whose speed is known. -/
def SpeedsSettled (_ : List CxpStep) (s : CxpSession) : Prop :=
  ∀ p, s.frontend.speed.downlink p ≠ .unknown → Settled p s.log

theorem SpeedsSettled.request {past past' : List CxpStep} (hs : SpeedsSettled past s)
    (h : sessionSetPortDataPathSpeed s p speed = some (s', ret)) : SpeedsSettled past' s' := by
  have hup : ∀ (g : CxpFrontend) (l : Nat) (up : DataPathUpSpeed), (setUplink g l up).speed = g.speed := by
    intro g l up
    obtain ⟨-, -, hspeed, -⟩ := setUplink_keeps (f := g) l up
    exact hspeed
  cases speedRequest_of_eq_some h with
  | refused => exact hs
  | cached => exact hs
  | notReady hwait =>
    intro q hq
    rw [waitPort_frontend hwait] at hq
    exact waitPort_settled hwait (hs q hq)
  | @kept s₁ hwait =>
    intro q hq
    have hq' : (setUplink s₁.frontend (s.frontend.logicalPort p) (dataPathUpSpeed speed)).speed.downlink q ≠
        .unknown := hq
    rw [hup, waitPort_frontend hwait] at hq'
    change Settled q s₁.log
    exact waitPort_settled hwait (hs q hq')
  | @changed s₁ s₂ _ hwait hchange =>
    intro q hq
    have hq' : (setUplink s₂.frontend (s.frontend.logicalPort p) (dataPathUpSpeed speed)).speed.downlink q ≠
        .unknown := hq
    rw [hup, changeDownlink_frontend hchange, waitPort_frontend hwait] at hq'
    change Settled q s₂.log
    by_cases hqp : q = p
    · rw [hqp]
      exact changeDownlink_settled_self hchange
    · have hcache : (writeDownlink s.frontend p speed).speed.downlink q = s.frontend.speed.downlink q := by
        simp only [writeDownlink, CxpFrontend.speed, cache_write, cache_modifyPort]
        exact Function.update_of_ne hqp _ _
      rw [hcache] at hq'
      exact changeDownlink_settled hchange (waitPort_settled hwait (hs q hq'))

theorem SpeedsSettled.step (past : List CxpStep) (st : CxpStep) (hs : SpeedsSettled past st.before)
    (h : sessionCall st.before st.call = some (st.after, st.answer)) :
    SpeedsSettled (past ++ [st]) st.after := by
  rcases sessionCall_cases h with ⟨p, speed, -, h⟩ | ⟨hspeed, hafter, -⟩
  · exact hs.request h
  · rw [hafter]
    intro p hp
    apply hs p
    rw [← (cxpCall_others st.before.frontend hspeed).1]
    exact hp

section
variable (ri : RegisterInterface) (numPhysicalPorts : Nat) (supportsIdleViolationFix : Bool)
  (reads : List StatusRead) (commands : List CameraCommand)

theorem cxpSession_settled : Along sessionCall SpeedsSettled []
    (cxpSession ri numPhysicalPorts supportsIdleViolationFix reads commands) := by
  apply steps_along SpeedsSettled.step
  intro p hp
  exact absurd rfl hp

/-- Success means that the port is ready in exactly those sessions where no request repeats the speed of a
change that was not acknowledged. -/
theorem cxp_speed_acknowledged_iff :
    SpeedAcknowledged (cxpSession ri numPhysicalPorts supportsIdleViolationFix reads commands) ↔
      NoRepeatUnacknowledged (cxpSession ri numPhysicalPorts supportsIdleViolationFix reads commands) := by
  have halong := cxpSession_settled ri numPhysicalPorts supportsIdleViolationFix reads commands
  generalize cxpSession ri numPhysicalPorts supportsIdleViolationFix reads commands = all at halong ⊢
  have hstep : ∀ st ∈ all, ∀ p speed, st.call = .dataPathSpeed p speed →
      SpeedsSettled [] st.before ∧ sessionSetPortDataPathSpeed st.before p speed =
        some (st.after, st.answer) := by
    intro st hst p speed hcall
    obtain ⟨past, -, hs, h⟩ := halong.mem hst
    rw [hcall] at h
    exact ⟨hs, h⟩
  have hcached : ∀ {s : CxpSession} {p speed}, SpeedsSettled [] s → AnsweredFromCaches s.frontend p speed →
      Settled p s.log := by
    intro s p speed hs hcaches
    apply hs p
    intro hunknown
    exact hcaches.2.1 (.inl (hcaches.2.2.1.trans hunknown))
  constructor
  · intro hlaw st hst p speed hcall hcaches hunack
    obtain ⟨hs, h⟩ := hstep st hst p speed hcall
    rw [sessionSetPortDataPathSpeed_cached hcaches] at h
    obtain ⟨hafter, hok⟩ := Prod.mk.inj (Option.some.inj h)
    have hready := hlaw st hst p speed hcall hok.symm
    have hsettled := hcached hs hcaches
    rw [Settled, hunack, hafter, hready] at hsettled
    cases hsettled
  · intro hcond st hst p speed hcall hok
    obtain ⟨hs, h⟩ := hstep st hst p speed hcall
    have hno := hcond st hst p speed hcall
    rw [hok] at h
    generalize st.after = s' at h
    cases speedRequest_of_eq_some h with
    | refused hret => exact absurd rfl hret
    | cached hcaches =>
      rw [hcached hs hcaches, Bool.eq_false_iff.mpr (hno hcaches)]
      rfl
    | notReady _ hret => exact absurd rfl hret
    | kept hwait => exact (waitPort_ready hwait).1
    | @changed s₁ s₂ _ _ hchange =>
      change readySince p s₂.log = true
      exact changeDownlink_ready hchange

end

/-- The reset of a board with one port: the port is ready, then the new speed is not acknowledged in time. A
request for the same speed follows. -/
def repeatedRequest : List CxpStep :=
  cxpSession ⟨fun _ => 0#32, fun _ => 0#32⟩ 1 true [⟨0x1#32, false⟩, ⟨0x0#32, true⟩]
    [.setPortDataPathSpeed 0 .speed3125]

theorem cxp_speed_not_acknowledged : ¬SpeedAcknowledged repeatedRequest := by
  intro hlaw
  have hrepeat : ∃ st ∈ repeatedRequest, st.call = .dataPathSpeed 0 .speed3125 ∧ st.answer = .ok ∧
      readySince 0 st.after.log = false := by decide +kernel
  obtain ⟨st, hst, hcall, hok, hnot⟩ := hrepeat
  have hready := hlaw st hst 0 .speed3125 hcall hok
  rw [hnot] at hready
  cases hready

end MenableDriver
