import Mathlib.Data.List.Nodup
import MenableDriver.Transition.Run

/-!
# Device numbers

`menable_core.c`: a probe takes its number from `maxidx`, and every way out gives it back
when it is the last one that was taken. A device is a structure with its number, from the
allocation of the number until the structure is freed; probes, removals and releases of
different devices go on at the same time, and the sections under `idxlock` do not.
-/

namespace MenableDriver

set_option autoImplicit false

open Transition

def MEN_MAX_NUM : Int := 8

/-- How far a probe or a removal has come. -/
inductive ProbePhase where
  /-- `cdev_add` comes next -/
  | numbered
  /-- `device_register` comes next -/
  | cdevAdded
  /-- the resources, the board and the link in sysfs come next -/
  | registered
  /-- the probe has succeeded -/
  | probed
  /-- `err_dev` has left its section, `device_unregister` comes next -/
  | unwinding
  /-- the last reference will call `menable_obj_release` -/
  | unregistered
deriving DecidableEq, Repr

structure SisoMenable where
  idx : Int
  phase : ProbePhase
deriving DecidableEq, Repr

structure Numbers where
  maxidx : Int := 0
  devices : List SisoMenable := []
deriving DecidableEq, Repr

/-- `if (men->idx == maxidx - 1) maxidx--;` -/
def giveBack (maxidx idx : Int) : Int := if idx = maxidx - 1 then maxidx - 1 else maxidx

namespace Numbers

/-- The section in which a probe takes its number. -/
def take (s : Numbers) : Numbers :=
  { maxidx := s.maxidx + 1, devices := s.devices ++ [⟨s.maxidx, .numbered⟩] }

/-- The device with the index `i`, when it has come to the phase. -/
def at? (s : Numbers) (i : Nat) (phase : ProbePhase) : Option SisoMenable :=
  s.devices[i]?.filter fun d => d.phase = phase

def goOn (s : Numbers) (i : Nat) (d : SisoMenable) (phase : ProbePhase) : Numbers :=
  { s with devices := s.devices.set i { d with phase } }

/-- `menable_obj_release` and the exit `err_release`: the number is given back and the
structure is freed. -/
def objRelease (s : Numbers) (i : Nat) (d : SisoMenable) : Numbers :=
  { maxidx := giveBack s.maxidx d.idx, devices := s.devices.eraseIdx i }

/-- The section of the exit `err_dev`: the structure stays until the device is released. -/
def errDev (s : Numbers) (i : Nat) (d : SisoMenable) : Numbers :=
  { s.goOn i d .unwinding with maxidx := giveBack s.maxidx d.idx }

end Numbers

inductive StartError where
  | enable | nomem
deriving DecidableEq, Repr

inductive RegisterError where
  | unknownBoard | register
deriving DecidableEq, Repr

inductive SetupError where
  | regions | bar | board | sysfsLink
deriving DecidableEq, Repr

/-- What happens next, with the result of the calls into the kernel. -/
inductive NumberEvent where
  | probe (failure : Option StartError)
  | cdevAdd (i : Nat) (ok : Bool)
  | deviceRegister (i : Nat) (failure : Option RegisterError)
  | setup (i : Nat) (failure : Option SetupError)
  | deviceUnregister (i : Nat)
  | remove (i : Nat)
  | release (i : Nat)
deriving DecidableEq, Repr

def numberStep (s : Numbers) : NumberEvent → Option Numbers
  | .probe (some _) => some s
  | .probe none => some s.take
  | .cdevAdd i ok => do
    let d ← s.at? i .numbered
    some (if ok then s.goOn i d .cdevAdded else s.objRelease i d)
  | .deviceRegister i failure => do
    let d ← s.at? i .cdevAdded
    some (if failure = none then s.goOn i d .registered else s.objRelease i d)
  | .setup i failure => do
    let d ← s.at? i .registered
    some (if failure = none then s.goOn i d .probed else s.errDev i d)
  | .deviceUnregister i => do
    let d ← s.at? i .unwinding
    some (s.goOn i d .unregistered)
  | .remove i => do
    let d ← s.at? i .probed
    some (s.goOn i d .unregistered)
  | .release i => do
    let d ← s.at? i .unregistered
    some (s.objRelease i d)

/-- Distinct numbers below `MEN_MAX_NUM`. -/
def NumbersUnique (s : Numbers) : Prop :=
  (s.devices.map SisoMenable.idx).Nodup ∧ ∀ d ∈ s.devices, 0 ≤ d.idx ∧ d.idx < MEN_MAX_NUM

/-- After `err_dev`, or at its end: the number may have been given back. -/
def SisoMenable.Leaving (d : SisoMenable) : Prop := d.phase = .unwinding ∨ d.phase = .unregistered

/-- A probe takes a number, and there is none left or a failed probe still has it. -/
def TakesWrongNumber (s : Numbers) (e : NumberEvent) : Prop :=
  e = .probe none ∧ (MEN_MAX_NUM ≤ s.maxidx ∨ ∃ d ∈ s.devices, d.Leaving ∧ d.idx = s.maxidx)

section Invariant

structure Numbered (s : Numbers) : Prop where
  unique : NumbersUnique s
  start : 0 ≤ s.maxidx
  below : ∀ d ∈ s.devices, ¬ d.Leaving → d.idx < s.maxidx

variable {s t : Numbers} {d d' : SisoMenable} {i : Nat}

theorem at?_split {phase : ProbePhase} (h : s.at? i phase = some d) : d.phase = phase ∧
    ∃ us vs, s.devices = us ++ d :: vs ∧ s.devices.eraseIdx i = us ++ vs ∧
      ∀ d', s.devices.set i d' = us ++ d' :: vs := by
  obtain ⟨hi, hphase⟩ := Option.filter_eq_some_iff.mp h
  obtain ⟨hlt, hd⟩ := List.getElem?_eq_some_iff.mp hi
  refine ⟨by simpa using hphase, s.devices.take i, s.devices.drop (i + 1), ?_, ?_, fun d' => ?_⟩
  · rw [← hd, List.getElem_cons_drop, List.take_append_drop]
  · exact List.eraseIdx_eq_take_drop_succ ..
  · exact List.set_eq_take_append_cons_drop .. |>.trans (if_pos hlt)

theorem giveBack_nonneg {maxidx idx : Int} (hm : 0 ≤ maxidx) (hi : 0 ≤ idx) : 0 ≤ giveBack maxidx idx := by
  unfold giveBack
  split_ifs <;> omega

/-- The devices with other numbers stay below. -/
theorem lt_giveBack {maxidx idx other : Int} (h : other < maxidx) (hne : other ≠ idx) :
    other < giveBack maxidx idx := by
  unfold giveBack
  split_ifs <;> omega

namespace Numbered

/-- The device at `i` is replaced by one with the same number, that stays away from the
others or stays below. -/
theorem replace (h : Numbered s) {us vs : List SisoMenable} (hs : s.devices = us ++ d :: vs) {maxidx : Int}
    (hidx : d'.idx = d.idx) (hstart : 0 ≤ maxidx) (hother : ∀ k < s.maxidx, k ≠ d.idx → k < maxidx)
    (hself : ¬ d'.Leaving → d'.idx < maxidx) : Numbered ⟨maxidx, us ++ d' :: vs⟩ := by
  have hnodup := h.unique.1
  have hbound := h.unique.2
  rw [hs] at hnodup hbound
  have hne : ∀ e ∈ us ++ vs, e.idx ≠ d.idx := by
    rw [List.map_append, List.map_cons, List.nodup_middle, List.nodup_cons, ← List.map_append] at hnodup
    exact fun e he heq => hnodup.1 (heq ▸ List.mem_map_of_mem he)
  refine ⟨⟨?_, fun e he => ?_⟩, hstart, fun e he hleave => ?_⟩
  · simpa [hidx] using hnodup
  · rcases List.mem_append.mp he with he | he
    · exact hbound e (List.mem_append_left _ he)
    · rcases List.mem_cons.mp he with rfl | he
      · exact hidx ▸ hbound d (by simp)
      · exact hbound e (by simp [he])
  · have hold (he' : e ∈ us ++ vs) : e.idx < maxidx := by
      refine hother _ (h.below e ?_ hleave) (hne e he')
      rw [hs]
      rcases List.mem_append.mp he' with he' | he' <;> simp [he']
    rcases List.mem_append.mp he with he | he
    · exact hold (List.mem_append_left _ he)
    · rcases List.mem_cons.mp he with rfl | he
      · exact hself hleave
      · exact hold (List.mem_append_right _ he)

theorem sublist {maxidx : Int} {ds es : List SisoMenable} (h : Numbered ⟨maxidx, ds⟩) (hsub : es.Sublist ds) :
    Numbered ⟨maxidx, es⟩ where
  unique := ⟨(hsub.map _).nodup h.unique.1, fun d hd => h.unique.2 d (hsub.subset hd)⟩
  start := h.start
  below := fun d hd => h.below d (hsub.subset hd)

theorem goOn (h : Numbered s) {phase next : ProbePhase} (hd : s.at? i phase = some d)
    (hphase : phase ≠ .unwinding ∧ phase ≠ .unregistered ∨ next = .unregistered) :
    Numbered (s.goOn i d next) := by
  obtain ⟨hp, us, vs, hs, -, hset⟩ := at?_split hd
  rw [Numbers.goOn, hset]
  refine h.replace hs rfl h.start (fun k hk _ => hk) fun hleave => ?_
  rcases hphase with ⟨hw, hr⟩ | rfl
  · apply h.below d (by simp [hs])
    rintro (h' | h')
    · exact hw (hp ▸ h')
    · exact hr (hp ▸ h')
  · exact absurd (.inr rfl) hleave

theorem errDev (h : Numbered s) {phase : ProbePhase} (hd : s.at? i phase = some d) :
    Numbered (s.errDev i d) := by
  obtain ⟨-, us, vs, hs, -, hset⟩ := at?_split hd
  rw [Numbers.errDev, Numbers.goOn, hset]
  refine h.replace hs rfl ?_ (fun k hk hne => lt_giveBack hk hne) fun hleave => ?_
  · exact giveBack_nonneg h.start (h.unique.2 d (by simp [hs])).1
  · exact absurd (.inl rfl) hleave

theorem objRelease (h : Numbered s) {phase : ProbePhase} (hd : s.at? i phase = some d) :
    Numbered (s.objRelease i d) := by
  obtain ⟨-, us, vs, hs, herase, hset⟩ := at?_split hd
  have herr := h.errDev hd
  rw [Numbers.errDev, Numbers.goOn, hset] at herr
  rw [Numbers.objRelease, herase]
  exact herr.sublist ((List.sublist_cons_self _ vs).append_left us)

/-- The number that a probe takes is new and small enough unless the guard is broken. -/
theorem take (h : Numbered s) (hG : ¬ TakesWrongNumber s (.probe none)) : Numbered s.take := by
  have hmax : s.maxidx < MEN_MAX_NUM := by
    by_contra hmax
    exact hG ⟨rfl, .inl (Int.not_lt.mp hmax)⟩
  have hne : ∀ d ∈ s.devices, d.idx ≠ s.maxidx := by
    intro d hd heq
    by_cases hleave : d.Leaving
    · exact hG ⟨rfl, .inr ⟨d, hd, hleave, heq⟩⟩
    · exact absurd heq (Int.ne_of_lt (h.below d hd hleave))
  refine ⟨⟨?_, fun d hd => ?_⟩, Int.le_add_one h.start, fun d hd hleave => ?_⟩
  · rw [Numbers.take, List.map_append, List.map_cons, List.map_nil, List.nodup_append]
    refine ⟨h.unique.1, List.nodup_singleton _, fun k hk k' hk' => ?_⟩
    obtain ⟨d, hd, rfl⟩ := List.mem_map.mp hk
    rw [List.mem_singleton.mp hk']
    exact hne d hd
  · rcases List.mem_append.mp hd with hd | hd
    · exact h.unique.2 d hd
    · rw [List.mem_singleton.mp hd]
      exact ⟨h.start, hmax⟩
  · rcases List.mem_append.mp hd with hd | hd
    · exact Int.lt_trans (h.below d hd hleave) (Int.lt_succ _)
    · rw [List.mem_singleton.mp hd]
      exact Int.lt_succ _

end Numbered

theorem take_unique (h : NumbersUnique s.take) : ¬ TakesWrongNumber s (.probe none) := by
  have hnew : (⟨s.maxidx, .numbered⟩ : SisoMenable) ∈ s.take.devices := by simp [Numbers.take]
  rintro ⟨-, hmax | ⟨d, hd, -, heq⟩⟩
  · exact absurd (h.2 _ hnew).2 (Int.not_lt.mpr hmax)
  · have hnodup := h.1
    rw [Numbers.take, List.map_append, List.map_cons, List.map_nil, List.nodup_append] at hnodup
    exact hnodup.2.2 d.idx (List.mem_map_of_mem hd) s.maxidx (by simp) heq

theorem numberStep_kept {e : NumberEvent} (h : Numbered s) (he : e ≠ .probe none)
    (ht : numberStep s e = some t) :
    Numbered t := by
  cases e with
  | probe failure =>
    cases failure with
    | none => exact absurd rfl he
    | some error =>
      cases ht
      exact h
  | cdevAdd i ok =>
    obtain ⟨d, hd, ht⟩ := Option.bind_eq_some_iff.mp ht
    cases ht
    split_ifs
    · exact h.goOn hd (.inl (by simp))
    · exact h.objRelease hd
  | deviceRegister i failure =>
    obtain ⟨d, hd, ht⟩ := Option.bind_eq_some_iff.mp ht
    cases ht
    split_ifs
    · exact h.goOn hd (.inl (by simp))
    · exact h.objRelease hd
  | setup i failure =>
    obtain ⟨d, hd, ht⟩ := Option.bind_eq_some_iff.mp ht
    cases ht
    split_ifs
    · exact h.goOn hd (.inl (by simp))
    · exact h.errDev hd
  | deviceUnregister i | remove i =>
    obtain ⟨d, hd, ht⟩ := Option.bind_eq_some_iff.mp ht
    cases ht
    exact h.goOn hd (.inr rfl)
  | release i =>
    obtain ⟨d, hd, ht⟩ := Option.bind_eq_some_iff.mp ht
    cases ht
    exact h.objRelease hd

/-- Only a probe takes a number. -/
theorem numberStep_spec {e : NumberEvent} (h : Numbered s) (ht : numberStep s e = some t) :
    (¬ TakesWrongNumber s e → Numbered t) ∧ (NumbersUnique t → ¬ TakesWrongNumber s e) := by
  by_cases he : e = .probe none
  · subst he
    cases ht
    exact ⟨h.take, take_unique⟩
  · exact ⟨fun _ => numberStep_kept h he ht, fun _ hG => he hG.1⟩

/-- All devices have different numbers below `MEN_MAX_NUM` exactly in the runs in which no
probe takes a number too many or one that a failed probe has not let go of. -/
theorem numbers_unique_iff (es : List NumberEvent) :
    Always (ofOption numberStep) NumbersUnique {} es ↔
      Meets (ofOption numberStep) (fun s e => ¬ TakesWrongNumber s e) {} es := by
  have hstart : Numbered {} := ⟨⟨List.nodup_nil, by simp⟩, Int.le_refl 0, by simp⟩
  exact always_iff_meets (P := Numbered) (fun s h => h.unique)
    (fun s e t h ht => numberStep_spec h (ofOption_ok.mp ht)) hstart es

end Invariant

section Example

/-- A device is probed. -/
def probed (i : Nat) : List NumberEvent :=
  [.probe none, .cdevAdd i true, .deviceRegister i none, .setup i none]

/-- The older one of two devices is removed and another device is probed, seven times. -/
def sevenReplaced : List NumberEvent := (List.replicate 7 ([.remove 0, .release 0] ++ probed 1)).flatten

/-- The second probe takes its number between the two ends of the failed one, the third
after it. -/
def probeDuringErrDev : List NumberEvent :=
  [.probe none, .cdevAdd 0 true, .deviceRegister 0 none, .setup 0 (some .board), .probe none,
    .deviceUnregister 0, .release 0, .cdevAdd 0 true, .deviceRegister 0 none, .setup 0 none, .probe none]

/-- Never more than two devices, and one has the number eight; two devices with the number zero. -/
theorem numbers_wrong :
    (Meets (ofOption numberStep) (fun s _ => s.devices.length ≤ 2) {} (probed 0 ++ probed 1 ++ sevenReplaced) ∧
        ∃ s, run (ofOption numberStep) {} (probed 0 ++ probed 1 ++ sevenReplaced) = .ok s ∧
          s.devices = [⟨7, .probed⟩, ⟨8, .probed⟩]) ∧
      Meets (ofOption numberStep) (fun s _ => s.devices.length ≤ 2) {} probeDuringErrDev ∧
        ∃ s, run (ofOption numberStep) {} probeDuringErrDev = .ok s ∧
          s.devices = [⟨0, .probed⟩, ⟨0, .numbered⟩] := by
  have hlength (s : Numbers) (e : NumberEvent) (h : decide (s.devices.length ≤ 2) = true) :
      s.devices.length ≤ 2 :=
    of_decide_eq_true h
  refine ⟨⟨meets_of_check hlength (by decide +kernel), ?_⟩, meets_of_check hlength (by decide +kernel), ?_⟩
  · obtain ⟨s, hs, h⟩ := exists_of_check (ofOption numberStep) {} (probed 0 ++ probed 1 ++ sevenReplaced)
      (fun s => decide (s.devices = [⟨7, .probed⟩, ⟨8, .probed⟩])) (by decide +kernel)
    exact ⟨s, hs, of_decide_eq_true h⟩
  · obtain ⟨s, hs, h⟩ := exists_of_check (ofOption numberStep) {} probeDuringErrDev
      (fun s => decide (s.devices = [⟨0, .probed⟩, ⟨0, .numbered⟩])) (by decide +kernel)
    exact ⟨s, hs, of_decide_eq_true h⟩

end Example

end MenableDriver
