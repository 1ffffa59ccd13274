import Mathlib.Algebra.Order.BigOperators.Group.List
import Mathlib.Algebra.Order.Group.Nat
import MenableDriver.Dma.Groups

/-!
# Handles and thread groups

An open counts for the board and for the thread group of the process that opens; a release
counts for the board and for the group of the process that releases, whoever opened the handle.
-/

namespace MenableDriver

set_option autoImplicit false

open Transition

/-- Every handle is counted in one group, and a group lives as long as it counts one. -/
structure GroupBalanced (m : Men) : Prop where
  sum : ((m.groups.map ThreadGroup.cnt).sum : Int) = m.use
  positive : ∀ tg ∈ m.groups, 0 < tg.cnt
  empty : m.use = 0 → m.groups = []

/-- A release is made by a process that has a thread group. -/
def ReleasesOwn (s : Sys) : Event → Prop
  | .run (.close _ current) => ∃ tg, meGetThreadgroup s.men current = some tg
  | _ => True

/-- There is memory for a thread group. -/
def GroupAllocated : Event → Prop
  | .run (.openFile _ alloc) => alloc = true
  | _ => True

variable {m m' : Men} {o : Outcome} {tgs : List ThreadGroup} {tg : ThreadGroup}
    {f : ThreadGroup → ThreadGroup}
  {current : Tgid}

theorem GroupBalanced.of_sum (hsum : ((m.groups.map ThreadGroup.cnt).sum : Int) = m.use)
    (hpos : ∀ tg ∈ m.groups, 0 < tg.cnt) : GroupBalanced m := by
  refine ⟨hsum, hpos, fun hzero => List.eq_nil_iff_forall_not_mem.mpr fun tg htg => ?_⟩
  have hle : tg.cnt ≤ (m.groups.map ThreadGroup.cnt).sum := List.le_sum_of_mem (List.mem_map_of_mem htg)
  have hcnt := hpos tg htg
  omega

theorem GroupBalanced.congr (h : GroupBalanced m) (hs : SameOwners m m') : GroupBalanced m' := by
  refine .of_sum ?_ ?_
  · rw [hs.groups, hs.use]
    exact h.sum
  · rw [hs.groups]
    exact h.positive

/-! ### The counts of the groups -/

theorem cnts_modThreadgroup (hf : ∀ tg, (f tg).cnt = tg.cnt) :
    (modThreadgroup current f tgs).map ThreadGroup.cnt = tgs.map ThreadGroup.cnt := by
  induction tgs with
  | nil => rfl
  | cons g tgs ih =>
    unfold modThreadgroup
    split_ifs
    · rw [List.map_cons, List.map_cons, hf]
    · rw [List.map_cons, List.map_cons, ih]

/-- Only the group that is found counts in another way. -/
theorem sum_modThreadgroup (h : tgs.find? (fun tg => decide (tg.id = current)) = some tg) :
    ((modThreadgroup current f tgs).map ThreadGroup.cnt).sum + tg.cnt =
      (tgs.map ThreadGroup.cnt).sum + (f tg).cnt := by
  induction tgs with
  | nil => cases h
  | cons g tgs ih =>
    unfold modThreadgroup
    by_cases hid : g.id = current
    · rw [List.find?_cons_of_pos (by simpa using hid)] at h
      cases h
      rw [if_pos hid, List.map_cons, List.map_cons, List.sum_cons, List.sum_cons]
      omega
    · rw [List.find?_cons_of_neg (by simpa using hid)] at h
      have hrest := ih h
      rw [if_neg hid, List.map_cons, List.map_cons, List.sum_cons, List.sum_cons]
      omega

theorem mem_modThreadgroup {g : ThreadGroup} (h : g ∈ modThreadgroup current f tgs) :
    g ∈ tgs ∨ ∃ g' ∈ tgs, g = f g' := by
  induction tgs with
  | nil => exact absurd h List.not_mem_nil
  | cons x tgs ih =>
    unfold modThreadgroup at h
    split_ifs at h
    · rcases List.mem_cons.mp h with rfl | hrest
      · exact .inr ⟨x, List.mem_cons_self, rfl⟩
      · exact .inl (List.mem_cons_of_mem _ hrest)
    · rcases List.mem_cons.mp h with rfl | hrest
      · exact .inl List.mem_cons_self
      · rcases ih hrest with hold | ⟨g', hg', hgf⟩
        · exact .inl (List.mem_cons_of_mem _ hold)
        · exact .inr ⟨g', List.mem_cons_of_mem _ hg', hgf⟩

/-- The group that is erased is the one whose count was changed. -/
theorem eraseP_modThreadgroup (hid : tg.id = current) :
    (modThreadgroup current (fun _ => tg) tgs).eraseP (fun g => decide (g.id = current)) =
      tgs.eraseP fun g => decide (g.id = current) := by
  induction tgs with
  | nil => rfl
  | cons g tgs ih =>
    unfold modThreadgroup
    by_cases hg : g.id = current
    · rw [if_pos hg, List.eraseP_cons_of_pos (by simpa using hid),
        List.eraseP_cons_of_pos (by simpa using hg)]
    · rw [if_neg hg, List.eraseP_cons_of_neg (by simpa using hg),
        List.eraseP_cons_of_neg (by simpa using hg), ih]

theorem sum_eraseP (h : tgs.find? (fun tg => decide (tg.id = current)) = some tg) :
    ((tgs.eraseP fun g => decide (g.id = current)).map ThreadGroup.cnt).sum + tg.cnt =
      (tgs.map ThreadGroup.cnt).sum := by
  induction tgs with
  | nil => cases h
  | cons g tgs ih =>
    by_cases hid : g.id = current
    · rw [List.find?_cons_of_pos (by simpa using hid)] at h
      cases h
      rw [List.eraseP_cons_of_pos (by simpa using hid), List.map_cons, List.sum_cons, Nat.add_comm]
    · rw [List.find?_cons_of_neg (by simpa using hid)] at h
      have hrest := ih h
      rw [List.eraseP_cons_of_neg (by simpa using hid), List.map_cons, List.map_cons, List.sum_cons,
        List.sum_cons]
      omega

/-! ### Opening and releasing -/

theorem menableOpen_balanced (h : GroupBalanced m) : GroupBalanced (menableOpen m current true) := by
  have hsum := h.sum
  unfold menableOpen
  dsimp only
  split
  · rename_i tg htg
    have hadd := sum_modThreadgroup (f := fun tg => { tg with cnt := tg.cnt + 1 }) htg
    refine .of_sum ?_ fun g hg => ?_
    · dsimp only at hadd ⊢
      omega
    · rcases mem_modThreadgroup hg with hold | ⟨g', _, rfl⟩
      · exact h.positive g hold
      · exact Nat.succ_pos _
  · rw [if_pos rfl]
    refine .of_sum ?_ fun g hg => ?_
    · simp only [List.map_append, List.sum_append, List.map_cons, List.map_nil, List.sum_cons, List.sum_nil]
      omega
    · rcases List.mem_append.mp hg with hold | hnew
      · exact h.positive g hold
      · rw [List.mem_singleton.mp hnew]
        exact Nat.one_pos

/-- The release takes one from the count of a group, if the process has one. -/
theorem menableReleaseGroup_sum (h : GroupBalanced m) (current : Tgid) :
    (menableReleaseGroup m current).use = m.use ∧
      (∀ tg ∈ (menableReleaseGroup m current).groups, 0 < tg.cnt) ∧
      ((menableReleaseGroup m current).groups.map ThreadGroup.cnt).sum +
          (if (meGetThreadgroup m current).isSome then 1 else 0) =
        (m.groups.map ThreadGroup.cnt).sum := by
  rcases menableReleaseGroup_cases m current with ⟨hnone, he⟩ | ⟨tg, tg', htg, htg', hcase⟩
  · rw [he, hnone]
    exact ⟨rfl, h.positive, rfl⟩
  · have hmem : tg ∈ m.groups := List.mem_of_find?_eq_some htg
    have hpos := h.positive tg hmem
    have hid : tg'.id = current := by
      rw [htg']
      simpa using List.find?_some htg
    have hcnt : tg'.cnt = tg.cnt - 1 := by rw [htg']
    rw [htg]
    rcases hcase with ⟨hmore, he⟩ | ⟨hlast, he⟩
    · have hsub := sum_modThreadgroup (f := fun _ => tg') htg
      rw [he]
      refine ⟨rfl, fun g hg => ?_, ?_⟩
      · rcases mem_modThreadgroup hg with hold | ⟨_, _, rfl⟩
        · exact h.positive g hold
        · omega
      · simp only [Option.isSome_some, if_true]
        omega
    · rw [he, menCleanupThreadgroup]
      dsimp only
      obtain ⟨chan, hb⟩ := cleanupFlagged_board
        { m with groups := modThreadgroup current (fun _ => tg') m.groups } tg'.dmas
        (fpgaChannels { m with groups := modThreadgroup current (fun _ => tg') m.groups })
      rw [hb, hid]
      dsimp only
      rw [eraseP_modThreadgroup hid]
      refine ⟨rfl, fun g hg => h.positive g (List.mem_of_mem_eraseP hg), ?_⟩
      have hsub := sum_eraseP htg
      simp only [Option.isSome_some, if_true]
      omega

theorem menableRelease_sum {owner : Tgid} {last : Bool} (h : GroupBalanced m)
    (hc : menableRelease m owner current = .ok (m', last)) :
    m'.use = m.use - 1 ∧ (∀ tg ∈ m'.groups, 0 < tg.cnt) ∧
      (m'.groups.map ThreadGroup.cnt).sum + (if (meGetThreadgroup m current).isSome then 1 else 0) =
        (m.groups.map ThreadGroup.cnt).sum := by
  have hfiles : GroupBalanced { m with files := m.files.erase owner } := .of_sum h.sum h.positive
  obtain ⟨huse, hpos, hsum⟩ := menableReleaseGroup_sum hfiles current
  unfold menableRelease at hc
  split_ifs at hc with hmem
  dsimp only at hc
  split_ifs at hc with hlast
  · cases hc
    obtain ⟨⟨chan, hb⟩, _⟩ := menCleanupChannels_effect
      { menableReleaseGroup { m with files := m.files.erase owner } current with
        use := (menableReleaseGroup { m with files := m.files.erase owner } current).use - 1 }
    rw [hb]
    exact ⟨by rw [huse], hpos, hsum⟩
  · cases hc
    exact ⟨by rw [huse], hpos, hsum⟩

/-- A release by a process without a group counts for the board only. -/
theorem menableRelease_balanced {owner : Tgid} {last : Bool} (h : GroupBalanced m)
    (hc : menableRelease m owner current = .ok (m', last)) :
    GroupBalanced m' ↔ ∃ tg, meGetThreadgroup m current = some tg := by
  obtain ⟨huse, hpos, hcount⟩ := menableRelease_sum h hc
  have hsum := h.sum
  constructor
  · intro hbalanced
    have hsum' := hbalanced.sum
    apply Option.isSome_iff_exists.mp
    by_contra hnone
    rw [if_neg hnone] at hcount
    omega
  · intro hgroup
    rw [if_pos (Option.isSome_iff_exists.mpr hgroup)] at hcount
    exact .of_sum (by omega) hpos

/-! ### The other calls -/

theorem start_balanced {w : StartWait} {k : Call} (hk : k.Starts w current) (h : GroupBalanced m)
    (hc : call m k = .ok (m', o)) : GroupBalanced m' := by
  rcases hk.runs hc with ⟨rfl, _⟩ | ⟨hw, ret, _, htail, rfl⟩
  · exact h
  · rcases fgStartTail_owners htail with ⟨_, hset⟩ | ⟨_, hs⟩
    · have hcnt : ∀ tg : ThreadGroup,
          (tg.setFlag (m'.chan w.chan).fpga (m'.chan w.chan).number true).cnt = tg.cnt := fun _ => rfl
      refine .of_sum ?_ fun g hg => ?_
      · rw [hset.groups, hset.use, cnts_modThreadgroup hcnt]
        exact h.sum
      · rw [hset.groups] at hg
        rcases mem_modThreadgroup hg with hold | ⟨g', hg', rfl⟩
        · exact h.positive g hold
        · exact h.positive g' hg'
    · exact h.congr hs

/-- What a call does to the counts. -/
theorem call_balanced {k : Call} (halloc : ∀ a alloc, k = .openFile a alloc → alloc = true)
    (h : GroupBalanced m)
    (hc : call m k = .ok (m', o)) :
    GroupBalanced m' ∨ ∃ owner a last, k = .close owner a ∧ menableRelease m owner a = .ok (m', last) := by
  cases hk : k.changesOwners with
  | false => exact .inl (h.congr (call_sameOwners hk hc))
  | true =>
    cases k with
    | openFile a alloc =>
      obtain rfl := halloc a alloc rfl
      simp only [call, Except.ok.injEq, Prod.mk.injEq] at hc
      obtain ⟨rfl, _⟩ := hc
      exact .inl (menableOpen_balanced h)
    | close owner a =>
      obtain ⟨⟨m₁, last⟩, hrelease, hc⟩ := bind_ok.mp hc
      cases hc
      exact .inr ⟨owner, a, last, rfl, hrelease⟩
    | startTail w hw a => exact .inl (start_balanced (.tail hw) h hc)
    | startRest w hw a => exact .inl (start_balanced (.rest hw) h hc)
    | _ => cases hk

theorem step_balanced {s t : Sys} {e : Event} (halloc : GroupAllocated e) (h : GroupBalanced s.men)
    (ht : step s e = .ok t) : GroupBalanced t.men ↔ ReleasesOwn s e := by
  cases e with
  | irqEnter c newFrames =>
    obtain ⟨_, _, rfl⟩ := step_irqEnter ht
    exact iff_of_true h trivial
  | run k =>
    obtain ⟨m, o, hcall, _, rfl⟩ := step_run ht
    have hopen : ∀ a alloc, k = .openFile a alloc → alloc = true := by
      rintro a alloc rfl
      exact halloc
    rcases call_balanced hopen h hcall with hbalanced | ⟨owner, a, last, rfl, hrelease⟩
    · apply iff_of_true hbalanced
      cases k with
      | close owner a =>
        obtain ⟨⟨m₁, last⟩, hrelease, hc⟩ := bind_ok.mp hcall
        cases hc
        exact (menableRelease_balanced h hrelease).mp hbalanced
      | _ => trivial
    · exact menableRelease_balanced h hrelease

theorem balanced_probe (activeFpgas : Nat) (dmacnt : List Nat) (fpga : ChanRef → Nat) (fifo : UInt32) :
    GroupBalanced (sysProbe activeFpgas dmacnt fpga fifo).men :=
  .of_sum rfl fun _ htg => absurd htg List.not_mem_nil

/-- The groups count the handles of the board exactly in the runs in which every release is
made by a process that has a group. -/
theorem group_counts_iff (activeFpgas : Nat) (dmacnt : List Nat) (fpga : ChanRef → Nat) (fifo : UInt32)
    (es : List Event) (halloc : ∀ e ∈ es, GroupAllocated e) :
    Always step (fun s => GroupBalanced s.men) (sysProbe activeFpgas dmacnt fpga fifo) es ↔
      Meets step ReleasesOwn (sysProbe activeFpgas dmacnt fpga fifo) es :=
  always_iff_meets_of_forall (fun _ h => h)
    (fun _ _ _ ha h ht => ⟨(step_balanced ha h ht).mpr, (step_balanced ha h ht).mp⟩)
    (balanced_probe activeFpgas dmacnt fpga fifo) halloc

section Example

/-- The process 2 releases the handle of the process 1, and the process 1 one of the process 2. -/
def handedOver : List Event :=
  [.run (.openFile 1 true), .run (.openFile 2 true), .run (.openFile 2 true), .run (.close 1 2),
    .run (.close 2 1), .run (.close 2 2), .run .cleanupMem]

def releasesOwn (s : Sys) : Event → Bool
  | .run (.close _ current) => (meGetThreadgroup s.men current).isSome
  | _ => true

theorem releasesOwn_sound (s : Sys) (e : Event) (h : releasesOwn s e = true) : ReleasesOwn s e := by
  cases e with
  | irqEnter => trivial
  | run k =>
    cases k with
    | close owner current => exact Option.isSome_iff_exists.mp h
    | _ => trivial

theorem group_counts_iff_handedOver :
    Always step (fun s => GroupBalanced s.men) (sysProbe 1 [1] (fun _ => 0) 8) handedOver :=
  (group_counts_iff 1 [1] (fun _ => 0) 8 handedOver (by simp [handedOver, GroupAllocated])).mpr
    (meets_of_check releasesOwn_sound (by decide +kernel))

/-- The process 2 releases the only handle: the board is not in use, and the group of the
process 1 is left. -/
theorem group_left :
    ¬ Always step (fun s => GroupBalanced s.men) (sysProbe 1 [1] (fun _ => 0) 8)
      [.run (.openFile 1 true), .run (.close 1 2)] := by
  intro h
  obtain ⟨t, ht, hp⟩ := exists_of_check step (sysProbe 1 [1] (fun _ => 0) 8)
    [.run (.openFile 1 true), .run (.close 1 2)]
    (fun t => decide (t.men.use = 0) && !t.men.groups.isEmpty) (by decide +kernel)
  simp only [Bool.and_eq_true, decide_eq_true_eq, Bool.not_eq_true'] at hp
  have hempty := (h.of_run ht).empty hp.1
  rw [hempty] at hp
  exact absurd hp.2 (by decide)

end Example

end MenableDriver
