import Mathlib.Data.List.Perm.Basic
import MenableDriver.Data.Counter
import MenableDriver.Dma.State
import MenableDriver.Transition.Run
import MenableDriver.Uiq.Base

/-!
# The queues of the VA events

A microEnable 6 has the queues that its board declares, and as many behind them as the user
asks for. `uiqcnt` counts the queues that are allocated, `num_active_uiqs` those in use;
a smaller request parks queues, they stay allocated. The history of a table are the
number of queues it has initialised, by which they are told apart, and those it has removed.
-/

namespace MenableDriver

set_option autoImplicit false

open Transition (ofOption ofOption_ok run Meets Always always_iff_meets exists_of_check)

def ME6_MAX_UIQS : Nat := 64

/-- The declarations of a board by the ids of the queues, and `num_uiq_declarations`. -/
structure UiqBoard where
  decls : List Nat
  numUiqDeclarations : Nat
  fits : decls.length ≤ ME6_MAX_UIQS
  le : numUiqDeclarations ≤ decls.length

def UiqBoard.declared (b : UiqBoard) : Nat := b.decls.length

/-- `struct menable_uiq` in the table, with the completions it was given. -/
structure UiqDevice where
  ref : Nat
  channelIndex : Nat
  id : Nat
  cpl : Nat := 0
deriving DecidableEq

/-- `men->uiqs` with its slots, and the two numbers of queues. -/
structure UiqTable where
  uiqs : Nat → Option UiqDevice := fun _ => none
  size : Nat := 0
  uiqcnt : Nat → Nat := fun _ => 0
  numActiveUiqs : Nat := 0
  created : Nat := 0
  removed : List Nat := []

inductive AllocError where
  | errInvalidArgument | errInsufficientMem | ptrErr (e : Errno)
deriving DecidableEq

/-- `men_uiq_remove` of the slots, one after the other. -/
def removeSlots (t : UiqTable) (chans : List Nat) : Option UiqTable :=
  chans.foldlM (fun t chan =>
    if chan < t.size then
      some { t with
        uiqs := Function.update t.uiqs chan none
        removed := ((t.uiqs chan).map UiqDevice.ref).toList ++ t.removed }
    else none) t

def menUiqInit (t : UiqTable) (chan id : Nat) : UiqTable :=
  { t with
    uiqs := Function.update t.uiqs chan (some { ref := t.created, channelIndex := chan, id := id })
    created := t.created + 1 }

/-- The loop of `me6_add_uiqs`; `inits i` is the error of `men_uiq_init` for the slot `i`. -/
def addDeclared (inits : Nat → Option Errno) : List Nat → Nat → UiqTable →
    Option (UiqTable × Option AllocError)
  | [], _, t => some (t, none)
  | id :: ids, i, t =>
    match inits i with
    | some e => do
      let t ← removeSlots t (List.range i)
      some ({ t with uiqs := fun _ => none, size := 0 }, some (.ptrErr e))
    | none => addDeclared inits ids (i + 1) (menUiqInit t i id)

def me6AddUiqs (b : UiqBoard) (inits : Nat → Option Errno) : Option (UiqTable × Option AllocError) := do
  let (t, result) ← addDeclared inits b.decls 0 { size := b.declared }
  some (match result with
    | some e => (t, some e)
    | none => ({ t with
      uiqcnt := Function.update t.uiqcnt 0 (b.declared % 256)
      numActiveUiqs := b.declared }, none))

def addEvent (firstVaEventUiq : Nat) (t : UiqTable) (eventIdx : Nat) : UiqTable :=
  let t := menUiqInit t eventIdx (Counter.sub eventIdx firstVaEventUiq)
  { t with
    uiqcnt := Function.update t.uiqcnt 0 ((t.uiqcnt 0 + 1) % 256)
    numActiveUiqs := Counter.inc t.numActiveUiqs }

/-- The loop over the new event queues. -/
def addEvents (firstVaEventUiq : Nat) (inits : Nat → Option Errno) :
    Nat → Nat → UiqTable → UiqTable × Option AllocError
  | 0, _, t => (t, none)
  | k + 1, eventIdx, t =>
    match inits eventIdx with
    | some e => (t, some (.ptrErr e))
    | none => addEvents firstVaEventUiq inits k (eventIdx + 1) (addEvent firstVaEventUiq t eventIdx)

/-- Readers of the parked queues are woken. -/
def completeParked (t : UiqTable) (chans : List Nat) : Option UiqTable :=
  chans.foldlM (fun t n =>
    if n < t.size then
      some { t with
        uiqs := Function.update t.uiqs n ((t.uiqs n).map fun u =>
          { u with cpl := if u.cpl = 0 then 1 else u.cpl }) }
    else none) t

/-- `krealloc` says whether there is memory for the larger table. -/
def me6AllocVaEventUiqs (b : UiqBoard) (t : UiqTable) (numEvents : UInt32) (krealloc : Bool)
    (inits : Nat → Option Errno) : Option (UiqTable × Option AllocError) :=
  let firstVaEventUiq := b.numUiqDeclarations
  let newUiqCount := Counter.add firstVaEventUiq numEvents.toNat
  if ME6_MAX_UIQS < newUiqCount then some (t, some .errInvalidArgument)
  else if t.uiqcnt 0 < newUiqCount then
    if krealloc = false then some (t, some .errInsufficientMem)
    else some (addEvents firstVaEventUiq inits (newUiqCount - t.uiqcnt 0) (t.uiqcnt 0)
      { t with size := newUiqCount })
  else if newUiqCount < t.numActiveUiqs then do
    let t ← completeParked t (List.range' newUiqCount (t.numActiveUiqs - newUiqCount))
    some ({ t with numActiveUiqs := newUiqCount }, none)
  else some (t, none)

def delFpga (t : UiqTable) (fpgaIdx : Nat) : Option UiqTable := do
  let cnt := t.uiqcnt fpgaIdx
  let t ← removeSlots t ((List.range cnt).map (fpgaIdx * MEN_MAX_UIQ_PER_FPGA + ·))
  some { t with
    numActiveUiqs := Counter.sub t.numActiveUiqs cnt
    uiqcnt := Function.update t.uiqcnt fpgaIdx 0 }

def menDelUiqs (t : UiqTable) (fpga : Nat) : Option UiqTable :=
  ((List.range MAX_FPGAS).drop fpga).foldlM delFpga t

/-! ### What holds of the table -/

def slotRefs (uiqs : Nat → Option UiqDevice) (c : Nat) : List Nat :=
  (List.range c).filterMap fun i => (uiqs i).map UiqDevice.ref

/-- The first `c` slots hold the queues that are there: those and the removed ones are all
that were initialised. -/
structure Holds (t : UiqTable) (c : Nat) : Prop where
  size : c ≤ t.size
  slots : ∀ i < c, (t.uiqs i).isSome = true
  ledger : (slotRefs t.uiqs c ++ t.removed).Perm (List.range t.created)

section Table
variable {t t' : UiqTable} {c : Nat}

theorem slotRefs_succ (uiqs : Nat → Option UiqDevice) (c : Nat) :
    slotRefs uiqs (c + 1) = slotRefs uiqs c ++ ((uiqs c).map UiqDevice.ref).toList := by
  rw [slotRefs, List.range_succ, List.filterMap_append, slotRefs]
  cases h : uiqs c <;> simp [h]

theorem slotRefs_congr {f g : Nat → Option UiqDevice}
    (h : ∀ i < c, (f i).map UiqDevice.ref = (g i).map UiqDevice.ref) :
    slotRefs f c = slotRefs g c :=
  List.filterMap_congr fun i hi => h i (List.mem_range.mp hi)

theorem Holds.menUiqInit (h : Holds t c) (hc : c < t.size) (id : Nat) : Holds (menUiqInit t c id)
    (c + 1) := by
  have hother : ∀ i < c, Function.update t.uiqs c (some ⟨t.created, c, id, 0⟩) i = t.uiqs i := fun i hi =>
    Function.update_of_ne (by omega) ..
  refine ⟨hc, fun i hi => ?_, ?_⟩
  · dsimp only [MenableDriver.menUiqInit]
    rcases Nat.lt_succ_iff_lt_or_eq.mp hi with hi | rfl
    · rw [hother i hi]
      exact h.slots i hi
    · rw [Function.update_self]
      rfl
  · dsimp only [MenableDriver.menUiqInit]
    rw [slotRefs_succ, Function.update_self, slotRefs_congr fun i hi => congrArg _ (hother i hi),
      List.append_assoc,
      List.range_succ]
    have hswap : (slotRefs t.uiqs c ++ ([t.created] ++ t.removed)).Perm
        (slotRefs t.uiqs c ++ (t.removed ++ [t.created])) := List.perm_append_comm.append_left _
    apply hswap.trans
    rw [← List.append_assoc]
    exact h.ledger.append_right _

/-- Only which queues are in the slots counts. -/
theorem Holds.congr (h : Holds t c) (hsize : t'.size = t.size)
    (hrefs : ∀ i, (t'.uiqs i).map UiqDevice.ref = (t.uiqs i).map UiqDevice.ref)
    (hremoved : t'.removed = t.removed) (hcreated : t'.created = t.created) : Holds t' c := by
  refine ⟨hsize ▸ h.size, fun i hi => ?_, ?_⟩
  · rw [← Option.isSome_map (f := UiqDevice.ref), hrefs i, Option.isSome_map]
    exact h.slots i hi
  · rw [slotRefs_congr fun i _ => hrefs i, hremoved, hcreated]
    exact h.ledger

theorem removeSlots_cons {chan : Nat} (h : chan < t.size) (chans : List Nat) :
    removeSlots t (chan :: chans) = removeSlots { t with
      uiqs := Function.update t.uiqs chan none
      removed := ((t.uiqs chan).map UiqDevice.ref).toList ++ t.removed } chans := by
  rw [removeSlots, List.foldlM_cons, if_pos h]
  rfl

theorem removeSlots_eq {chans : List Nat} (hsize : ∀ i ∈ chans, i < t.size) (hnodup : chans.Nodup) :
    removeSlots t chans = some { t with
      uiqs := fun i => if i ∈ chans then none else t.uiqs i
      removed := (chans.filterMap fun i => (t.uiqs i).map UiqDevice.ref).reverse ++ t.removed } := by
  induction chans generalizing t with
  | nil => simp [removeSlots]
  | cons chan chans ih =>
    obtain ⟨hmem, hnodup⟩ := List.nodup_cons.mp hnodup
    have hother : ∀ i ∈ chans, Function.update t.uiqs chan none i = t.uiqs i := fun i hi =>
      Function.update_of_ne (fun he : i = chan => hmem (he ▸ hi)) ..
    have hrest : ∀ i ∈ chans, i < t.size := fun i hi => hsize i (List.mem_cons_of_mem _ hi)
    rw [removeSlots_cons (hsize chan List.mem_cons_self), ih (by exact hrest) hnodup]
    dsimp only
    rw [List.filterMap_congr fun i hi => congrArg _ (hother i hi)]
    congr 2
    · funext i
      by_cases hi : i = chan
      · subst hi
        simp
      · simp [hi]
    · cases h : t.uiqs chan <;> simp [h]

/-- Removing what is in the slots removes every queue once. -/
theorem Holds.remove (h : Holds t c) : ∃ t', removeSlots t (List.range c) = some t' ∧
    t'.removed.Perm (List.range t'.created) ∧ t'.uiqcnt = t.uiqcnt ∧ t'.numActiveUiqs = t.numActiveUiqs ∧
    t'.size = t.size := by
  refine ⟨_, removeSlots_eq (fun i hi => ?_) List.nodup_range, ?_, rfl, rfl, rfl⟩
  · have := List.mem_range.mp hi
    have := h.size
    omega
  · exact (List.reverse_perm _).append_right _ |>.trans h.ledger

theorem completeParked_ok (chans : List Nat) (hsize : ∀ i ∈ chans, i < t.size) :
    ∃ t', completeParked t chans = some t' ∧ t'.uiqcnt = t.uiqcnt ∧ t'.size = t.size ∧
      t'.removed = t.removed ∧
      t'.created = t.created ∧ ∀ i, (t'.uiqs i).map UiqDevice.ref = (t.uiqs i).map UiqDevice.ref := by
  induction chans generalizing t with
  | nil => exact ⟨t, rfl, rfl, rfl, rfl, rfl, fun _ => rfl⟩
  | cons chan chans ih =>
    rw [completeParked, List.foldlM_cons, if_pos (hsize chan List.mem_cons_self)]
    obtain ⟨t', ht', hcnt, hsz, hrem, hcre, hrefs⟩ := ih (t := { t with
      uiqs := Function.update t.uiqs chan
        ((t.uiqs chan).map fun u => { u with cpl := if u.cpl = 0 then 1 else u.cpl }) })
      fun i hi => hsize i (List.mem_cons_of_mem _ hi)
    refine ⟨t', ht', hcnt, hsz, hrem, hcre, fun i => (hrefs i).trans ?_⟩
    by_cases hi : i = chan
    · subst hi
      cases t.uiqs i <;> simp
    · simp [hi]

end Table

/-- What every request keeps. -/
structure TableInv (t : UiqTable) : Prop where
  holds : Holds t (t.uiqcnt 0)
  cnt : t.uiqcnt 0 ≤ ME6_MAX_UIQS
  fpga1 : t.uiqcnt 1 = 0
  active : t.numActiveUiqs ≤ t.uiqcnt 0

section Requests
variable {b : UiqBoard} {t t' : UiqTable} {numEvents : UInt32} {krealloc : Bool} {inits : Nat → Option Errno}
  {ret : Option AllocError}

theorem TableInv.addEvent (ht : TableInv t) (hsize : t.uiqcnt 0 < t.size) (hmax : t.uiqcnt 0 < ME6_MAX_UIQS)
    (firstVaEventUiq : Nat) : TableInv (addEvent firstVaEventUiq t (t.uiqcnt 0)) ∧
      (addEvent firstVaEventUiq t (t.uiqcnt 0)).uiqcnt 0 = t.uiqcnt 0 + 1 ∧
      (addEvent firstVaEventUiq t (t.uiqcnt 0)).numActiveUiqs = t.numActiveUiqs + 1 := by
  have hactive := ht.active
  unfold ME6_MAX_UIQS at hmax
  have hmod : (t.uiqcnt 0 + 1) % 256 = t.uiqcnt 0 + 1 := Nat.mod_eq_of_lt (by omega)
  have hcnt : (MenableDriver.addEvent firstVaEventUiq t (t.uiqcnt 0)).uiqcnt 0 = t.uiqcnt 0 + 1 := by
    dsimp only [MenableDriver.addEvent, menUiqInit]
    rw [Function.update_self, hmod]
  have hinc : (MenableDriver.addEvent firstVaEventUiq t (t.uiqcnt 0)).numActiveUiqs = t.numActiveUiqs + 1 :=
    Counter.inc_eq (by dsimp only [menUiqInit]; unfold Counter.wrap; omega)
  have hh := ht.holds.menUiqInit hsize (Counter.sub (t.uiqcnt 0) firstVaEventUiq)
  refine ⟨⟨?_, ?_, ?_, ?_⟩, hcnt, hinc⟩
  · rw [hcnt]
    exact ⟨hh.size, hh.slots, hh.ledger⟩
  · rw [hcnt]
    exact hmax
  · dsimp only [MenableDriver.addEvent, menUiqInit]
    rw [Function.update_of_ne Nat.one_ne_zero]
    exact ht.fpga1
  · rw [hcnt, hinc]
    omega

theorem addEvents_spec (firstVaEventUiq : Nat) {k : Nat} (ht : TableInv t) (hsize : t.uiqcnt 0 + k ≤ t.size)
    (hmax : t.uiqcnt 0 + k ≤ ME6_MAX_UIQS)
      (h : addEvents firstVaEventUiq inits k (t.uiqcnt 0) t = (t', ret)) :
    TableInv t' ∧ t.uiqcnt 0 ≤ t'.uiqcnt 0 ∧ (0 < k → inits (t.uiqcnt 0) = none → t.uiqcnt 0 < t'.uiqcnt 0) ∧
      (ret = none → t'.numActiveUiqs = t.numActiveUiqs + k) ∧
      (ret = none ↔ ∀ i, t.uiqcnt 0 ≤ i → i < t.uiqcnt 0 + k → inits i = none) := by
  induction k generalizing t with
  | zero =>
    cases h
    exact ⟨ht, Nat.le_refl _, fun h0 => absurd h0 (Nat.lt_irrefl 0), fun _ => rfl,
      iff_of_true rfl fun i hi hlt => by omega⟩
  | succ k ih =>
    simp only [addEvents] at h
    split at h
    · rename_i e he
      have hsome : inits (t.uiqcnt 0) ≠ none := by
        rw [he]
        exact Option.some_ne_none e
      cases h
      exact ⟨ht, Nat.le_refl _, fun _ h0 => absurd h0 hsome, fun h0 => (by cases h0),
        iff_of_false (Option.some_ne_none _) fun hall => hsome (hall _ (Nat.le_refl _) (by omega))⟩
    · rename_i he
      obtain ⟨ht₁, hcnt, hinc⟩ := ht.addEvent (by omega) (by omega) firstVaEventUiq
      rw [← hcnt] at h
      have hsize₁ : t.uiqcnt 0 + 1 + k ≤ (MenableDriver.addEvent firstVaEventUiq t (t.uiqcnt 0)).size := by
        change _ ≤ t.size
        omega
      obtain ⟨hinv, hle, _, hactive, hret⟩ := ih ht₁ (by rw [hcnt]; exact hsize₁) (by omega) h
      refine ⟨hinv, by omega, fun _ _ => by omega, fun h0 => (hactive h0).trans (by omega), hret.trans ?_⟩
      rw [hcnt]
      constructor
      · intro hall i hi hlt
        rcases Nat.eq_or_lt_of_le hi with rfl | hi
        · exact he
        · exact hall i hi (by omega)
      · exact fun hall i hi hlt => hall i (by omega) (by omega)

end Requests

/-! ### The requests and the teardown -/

/-- The queues and their numbers; `krealloc` may have replaced the array. -/
def Unchanged (t t' : UiqTable) : Prop :=
  t'.uiqs = t.uiqs ∧ t'.uiqcnt = t.uiqcnt ∧ t'.numActiveUiqs = t.numActiveUiqs

def AllocOk (b : UiqBoard) (numEvents : UInt32) (t t' : UiqTable) (ret : Option AllocError) : Prop :=
  (ret = none → t'.numActiveUiqs = b.declared + numEvents.toNat) ∧
    (ME6_MAX_UIQS < b.declared + numEvents.toNat → ret ≠ none ∧ Unchanged t t')

/-- Every queue was removed once, and no more queues were active than could be taken off. -/
def DelOk (t t' : UiqTable) : Prop :=
  t'.uiqcnt 0 = 0 ∧ t'.numActiveUiqs + t.uiqcnt 0 = t.numActiveUiqs ∧ ∀ r < t'.created, t'.removed.count r = 1

def newUiqCount (b : UiqBoard) (numEvents : UInt32) : Nat := Counter.add b.numUiqDeclarations numEvents.toNat

/-- The request ends before it has initialised a queue. -/
def RefusedEarly (b : UiqBoard) (t : UiqTable) (numEvents : UInt32) (krealloc : Bool)
    (inits : Nat → Option Errno) : Prop :=
  ME6_MAX_UIQS < newUiqCount b numEvents ∨
    t.uiqcnt 0 < newUiqCount b numEvents ∧ (krealloc = false ∨ inits (t.uiqcnt 0) ≠ none)

/-- There is memory for all the queues that the request has to initialise. -/
def MemoryObtained (b : UiqBoard) (t : UiqTable) (numEvents : UInt32) (krealloc : Bool)
    (inits : Nat → Option Errno) : Prop :=
  t.uiqcnt 0 < newUiqCount b numEvents →
    krealloc = true ∧ ∀ i, t.uiqcnt 0 ≤ i → i < newUiqCount b numEvents → inits i = none

/-- Otherwise the sum is in range, and a request that succeeds finds no parked queues, unless it
asks for no more than are active. -/
def AllocSafe (b : UiqBoard) (t : UiqTable) (numEvents : UInt32) (krealloc : Bool)
    (inits : Nat → Option Errno) : Prop :=
  RefusedEarly b t numEvents krealloc inits ∨
    b.declared + numEvents.toNat ≤ ME6_MAX_UIQS ∧
      (MemoryObtained b t numEvents krealloc inits → b.numUiqDeclarations = b.declared ∧
        (t.numActiveUiqs = t.uiqcnt 0 ∨ b.declared + numEvents.toNat ≤ t.numActiveUiqs))

section Calls
variable {b : UiqBoard} {t t' : UiqTable} {numEvents : UInt32} {krealloc : Bool} {inits : Nat → Option Errno}
  {ret : Option AllocError}

theorem newUiqCount_of_le (h : b.declared + numEvents.toNat ≤ ME6_MAX_UIQS) :
    newUiqCount b numEvents = b.numUiqDeclarations + numEvents.toNat := by
  have hle : b.numUiqDeclarations ≤ b.declared := b.le
  unfold ME6_MAX_UIQS at h
  exact Nat.mod_eq_of_lt (by unfold Counter.wrap; omega)

/-- A request that fails and has changed nothing is as it should be. -/
theorem allocOk_of_unchanged (h : Unchanged t t') (e : AllocError) : AllocOk b numEvents t t' (some e) :=
  ⟨fun h0 => (by cases h0), fun _ => ⟨Option.some_ne_none e, h⟩⟩

theorem allocOk_none_iff : AllocOk b numEvents t t' none ↔
    t'.numActiveUiqs = b.declared + numEvents.toNat ∧ b.declared + numEvents.toNat ≤ ME6_MAX_UIQS := by
  unfold AllocOk
  constructor
  · intro h
    exact ⟨h.1 rfl, Nat.le_of_not_lt fun hlt => (h.2 hlt).1 rfl⟩
  · intro h
    exact ⟨fun _ => h.1, fun hlt => absurd h.2 (by omega)⟩

theorem me6AllocVaEventUiqs_grow (ht : TableInv t) (hmax : newUiqCount b numEvents ≤ ME6_MAX_UIQS)
    (hgrow : t.uiqcnt 0 < newUiqCount b numEvents)
    (h : addEvents b.numUiqDeclarations inits (newUiqCount b numEvents - t.uiqcnt 0) (t.uiqcnt 0)
      { t with size := newUiqCount b numEvents } = (t', ret)) :
    TableInv t' ∧ (AllocOk b numEvents t t' ret ↔ AllocSafe b t numEvents true inits) := by
  have hactive := ht.active
  have hk : t.uiqcnt 0 + (newUiqCount b numEvents - t.uiqcnt 0) = newUiqCount b numEvents := by omega
  have ht₁ : TableInv { t with size := newUiqCount b numEvents } :=
    ⟨⟨Nat.le_of_lt hgrow, ht.holds.slots, ht.holds.ledger⟩, ht.cnt, ht.fpga1, ht.active⟩
  obtain ⟨hinv, hle, hfirst, hact, hret⟩ := addEvents_spec b.numUiqDeclarations ht₁ (by dsimp only; omega)
    (by dsimp only; omega) h
  dsimp only at hle hfirst hact hret
  rw [hk] at hret
  refine ⟨hinv, ?_⟩
  have hsafe : AllocSafe b t numEvents true inits ↔ inits (t.uiqcnt 0) ≠ none ∨
      b.declared + numEvents.toNat ≤ ME6_MAX_UIQS ∧ (ret = none → b.numUiqDeclarations = b.declared ∧
        (t.numActiveUiqs = t.uiqcnt 0 ∨ b.declared + numEvents.toNat ≤ t.numActiveUiqs)) := by
    have hobt : MemoryObtained b t numEvents true inits ↔ ret = none := by
      rw [hret, MemoryObtained]
      exact ⟨fun ho => (ho hgrow).2, fun ho _ => ⟨rfl, ho⟩⟩
    unfold AllocSafe RefusedEarly
    rw [hobt]
    simp only [Nat.not_lt.mpr hmax, hgrow, false_or, true_and, Bool.true_eq_false]
  rw [hsafe]
  by_cases hinit : inits (t.uiqcnt 0) = none
  · have hlt := hfirst (by omega) hinit
    cases ret with
    | some e =>
      have hchanged : ¬ Unchanged t t' := fun hu => by
        rw [hu.2.1] at hlt
        omega
      constructor
      · intro hok
        exact .inr ⟨Nat.le_of_not_lt fun hbig => hchanged (hok.2 hbig).2, fun h0 => (by cases h0)⟩
      · rintro (h0 | ⟨hmax', _⟩)
        · exact absurd hinit h0
        · exact ⟨fun h0 => (by cases h0), fun hbig => absurd hmax' (by omega)⟩
    | none =>
      have hact := hact rfl
      have heq : b.declared + numEvents.toNat ≤ ME6_MAX_UIQS → newUiqCount b numEvents =
        _ := newUiqCount_of_le
      have hle : b.numUiqDeclarations ≤ b.declared := b.le
      rw [allocOk_none_iff]
      simp only [hinit, ne_eq, not_true, false_or, true_imp_iff, hact]
      constructor
      · rintro ⟨hsum, hmax'⟩
        have := heq hmax'
        exact ⟨hmax', by omega, by omega⟩
      · rintro ⟨hmax', hdecl, hparked⟩
        have := heq hmax'
        exact ⟨by omega, hmax'⟩
  · refine iff_of_true ?_ (.inl hinit)
    obtain ⟨k, hk'⟩ : ∃ k, newUiqCount b numEvents - t.uiqcnt 0 =
      k + 1 := ⟨_, (Nat.succ_pred (by omega)).symm⟩
    obtain ⟨e, he⟩ := Option.ne_none_iff_exists'.mp hinit
    rw [hk', addEvents, he] at h
    cases h
    exact allocOk_of_unchanged ⟨rfl, rfl, rfl⟩ _

/-- A request keeps the table, and it does what it should exactly if it is safe. -/
theorem me6AllocVaEventUiqs_spec (ht : TableInv t)
    (h : me6AllocVaEventUiqs b t numEvents krealloc inits = some (t', ret)) :
    TableInv t' ∧ (AllocOk b numEvents t t' ret ↔ AllocSafe b t numEvents krealloc inits) := by
  have hactive := ht.active
  have hle : b.numUiqDeclarations ≤ b.declared := b.le
  have heq : b.declared + numEvents.toNat ≤ ME6_MAX_UIQS → newUiqCount b numEvents = _ := newUiqCount_of_le
  unfold me6AllocVaEventUiqs at h
  dsimp only at h
  rw [← newUiqCount] at h
  split_ifs at h with hmax hgrow hmem hshrink
  · cases h
    exact ⟨ht, iff_of_true (allocOk_of_unchanged ⟨rfl, rfl, rfl⟩ _) (.inl (.inl hmax))⟩
  · cases h
    exact ⟨ht, iff_of_true (allocOk_of_unchanged ⟨rfl, rfl, rfl⟩ _) (.inl (.inr ⟨hgrow, .inl hmem⟩))⟩
  · obtain rfl : krealloc = true := by simpa using hmem
    exact me6AllocVaEventUiqs_grow ht (Nat.le_of_not_lt hmax) hgrow (Option.some.inj h)
  all_goals
    have hsafe : AllocSafe b t numEvents krealloc inits ↔ b.declared + numEvents.toNat ≤ ME6_MAX_UIQS ∧
        b.numUiqDeclarations = b.declared ∧
          (t.numActiveUiqs = t.uiqcnt 0 ∨ b.declared + numEvents.toNat ≤ t.numActiveUiqs) := by
      simp only [AllocSafe, RefusedEarly, MemoryObtained, hmax, hgrow, false_or, false_and, false_imp_iff,
        true_imp_iff]
    rw [hsafe]
  · obtain ⟨t₁, h₁, hcnt, hsize, hremoved, hcreated, hrefs⟩ := completeParked_ok
      (List.range' (newUiqCount b numEvents) (t.numActiveUiqs - newUiqCount b numEvents))
        (t := t) fun i hi => by
        have := (List.mem_range'_1.mp hi).2
        have := ht.holds.size
        omega
    rw [h₁] at h
    cases h
    refine ⟨⟨?_, ?_, ?_, ?_⟩, ?_⟩
    · dsimp only
      rw [hcnt]
      exact ht.holds.congr hsize hrefs hremoved hcreated
    · dsimp only
      rw [hcnt]
      exact ht.cnt
    · dsimp only
      rw [hcnt]
      exact ht.fpga1
    · dsimp only
      rw [hcnt]
      omega
    · rw [allocOk_none_iff]
      constructor
      · rintro ⟨hsum, hmax'⟩
        have := heq hmax'
        dsimp only at hsum
        exact ⟨hmax', by omega, by omega⟩
      · rintro ⟨hmax', hdecl, _⟩
        have := heq hmax'
        exact ⟨by dsimp only; omega, hmax'⟩
  · cases h
    refine ⟨ht, ?_⟩
    rw [allocOk_none_iff]
    constructor
    · rintro ⟨hsum, hmax'⟩
      have := heq hmax'
      exact ⟨hmax', by omega, by omega⟩
    · rintro ⟨hmax', hdecl, hparked⟩
      have := heq hmax'
      exact ⟨by omega, hmax'⟩

theorem menDelUiqs_eq (ht : TableInv t) : ∃ t', menDelUiqs t 0 = some t' ∧ t'.uiqcnt 0 = 0 ∧ t'.uiqcnt 1 = 0 ∧
    t'.numActiveUiqs = Counter.sub t.numActiveUiqs (t.uiqcnt 0) ∧
      t'.removed.Perm (List.range t'.created) := by
  obtain ⟨t₁, h₁, hperm, hcnt, hactive, _⟩ := ht.holds.remove
  have hchans : (List.range (t.uiqcnt 0)).map (0 * MEN_MAX_UIQ_PER_FPGA + ·) = List.range (t.uiqcnt 0) := by
    simp
  have hfirst : delFpga t 0 = some { t₁ with
      numActiveUiqs := Counter.sub t₁.numActiveUiqs (t.uiqcnt 0)
      uiqcnt := Function.update t₁.uiqcnt 0 0 } := by
    rw [delFpga, hchans, h₁]
    rfl
  have hnone : Function.update t₁.uiqcnt 0 0 1 = 0 := by
    rw [Function.update_of_ne Nat.one_ne_zero, hcnt]
    exact ht.fpga1
  have hsub : ∀ n, Counter.sub (Counter.sub t.numActiveUiqs n) 0 =
      Counter.sub t.numActiveUiqs n := fun n => by
    unfold Counter.sub Counter.wrap
    omega
  refine ⟨{ t₁ with
    numActiveUiqs := Counter.sub (Counter.sub t₁.numActiveUiqs (t.uiqcnt 0)) 0
    uiqcnt := Function.update (Function.update t₁.uiqcnt 0 0) 1 0 }, ?_, ?_, ?_, ?_, hperm⟩
  · change (List.foldlM delFpga t [0, 1]) = _
    rw [List.foldlM_cons, hfirst]
    simp only [Option.bind_eq_bind, Option.bind_some, List.foldlM_cons, List.foldlM_nil]
    rw [delFpga]
    simp only [hnone, List.range_zero, List.map_nil, removeSlots, List.foldlM_nil]
    rfl
  · simp
  · simp
  · dsimp only
    rw [hactive, hsub]

theorem menDelUiqs_spec (ht : TableInv t) (h : menDelUiqs t 0 = some t') :
    (DelOk t t' ↔ t.numActiveUiqs = t.uiqcnt 0) ∧ (t.numActiveUiqs = t.uiqcnt 0 → TableInv t') := by
  obtain ⟨t₁, h₁, hcnt, hfpga1, hactive, hperm⟩ := menDelUiqs_eq ht
  obtain rfl : t₁ = t' := Option.some.inj (h₁.symm.trans h)
  have hle := ht.active
  have hmax := ht.cnt
  unfold ME6_MAX_UIQS at hmax
  constructor
  · constructor
    · rintro ⟨_, hsum, _⟩
      rw [hactive, Counter.sub, Counter.wrap] at hsum
      omega
    · intro heq
      refine ⟨hcnt, ?_, fun r hr => ?_⟩
      · rw [hactive, heq, Counter.sub_eq (Nat.le_refl _) (by unfold Counter.wrap; omega)]
        omega
      · rw [hperm.count_eq]
        exact List.count_eq_one_of_mem List.nodup_range (List.mem_range.mpr hr)
  · intro heq
    refine ⟨⟨?_, fun i hi => ?_, ?_⟩, ?_, hfpga1, ?_⟩
    · rw [hcnt]
      exact Nat.zero_le _
    · rw [hcnt] at hi
      omega
    · rw [hcnt]
      exact hperm
    · rw [hcnt]
      exact Nat.zero_le _
    · rw [hactive, heq, Counter.sub_eq (Nat.le_refl _) (by unfold Counter.wrap; omega)]
      omega

/-- The queues of a board are there, or it has none. -/
theorem addDeclared_spec (inits : Nat → Option Errno) {i : Nat} (ids : List Nat) (h : Holds t i)
    (hsize : t.size = i + ids.length)
    (hcnt : t.uiqcnt = fun _ => 0) (hactive : t.numActiveUiqs = 0) :
    ∃ t' ret, addDeclared inits ids i t = some (t', ret) ∧ t'.uiqcnt = (fun _ => 0) ∧ t'.numActiveUiqs = 0 ∧
      Holds t' (if ret = none then i + ids.length else 0) := by
  induction ids generalizing i t with
  | nil => exact ⟨t, none, rfl, hcnt, hactive, h⟩
  | cons id ids ih =>
    rw [List.length_cons] at hsize ⊢
    simp only [addDeclared]
    split
    · rename_i e _
      obtain ⟨t₁, h₁, hperm, hcnt₁, hactive₁, _⟩ := h.remove
      rw [h₁]
      exact ⟨_, _, rfl, hcnt₁.trans hcnt, hactive₁.trans hactive,
        ⟨Nat.zero_le _, fun k hk => absurd hk (by simp), hperm⟩⟩
    · obtain ⟨t', ret, hrun, hcnt', hactive', hholds⟩ := ih (h.menUiqInit (by omega) id)
        (by change t.size = _; omega) hcnt hactive
      refine ⟨t', ret, hrun, hcnt', hactive', ?_⟩
      rw [show i + (ids.length + 1) = i + 1 + ids.length by omega]
      exact hholds

theorem me6AddUiqs_ok (b : UiqBoard) (inits : Nat → Option Errno) :
    ∃ t ret, me6AddUiqs b inits = some (t, ret) ∧ TableInv t := by
  have hfits : b.declared ≤ ME6_MAX_UIQS := b.fits
  obtain ⟨t, ret, hrun, hcnt, hactive, hholds⟩ := addDeclared_spec inits b.decls
    (t := { size := b.declared }) ⟨Nat.zero_le _, fun k hk => absurd hk (Nat.not_lt_zero k), .refl _⟩
    (by change b.decls.length = _; omega) rfl rfl
  rw [me6AddUiqs, hrun]
  cases ret with
  | some e =>
    refine ⟨t, some e, rfl, ⟨?_, ?_, ?_, ?_⟩⟩
    · rw [hcnt]
      exact hholds
    · rw [hcnt]
      exact Nat.zero_le _
    · rw [hcnt]
    · rw [hactive]
      exact Nat.zero_le _
  | none =>
    rw [if_pos rfl, Nat.zero_add] at hholds
    have hmod : b.declared % 256 = b.declared := by
      unfold ME6_MAX_UIQS at hfits
      omega
    refine ⟨_, none, rfl, ⟨?_, ?_, ?_, ?_⟩⟩
    · dsimp only
      rw [Function.update_self, hmod]
      exact ⟨hholds.size, hholds.slots, hholds.ledger⟩
    · dsimp only
      rw [Function.update_self, hmod]
      exact hfits
    · dsimp only
      rw [Function.update_of_ne Nat.one_ne_zero, hcnt]
    · dsimp only
      rw [Function.update_self, hmod]

theorem me6AllocVaEventUiqs_total (ht : TableInv t) (b : UiqBoard) (numEvents : UInt32) (krealloc : Bool)
    (inits : Nat → Option Errno) : ∃ r, me6AllocVaEventUiqs b t numEvents krealloc inits = some r := by
  unfold me6AllocVaEventUiqs
  dsimp only
  rw [← newUiqCount]
  split_ifs with hmax hgrow hmem hshrink
  · exact ⟨_, rfl⟩
  · exact ⟨_, rfl⟩
  · exact ⟨_, rfl⟩
  · have hactive := ht.active
    have hsize := ht.holds.size
    obtain ⟨t₁, h₁, _⟩ := completeParked_ok
      (List.range' (newUiqCount b numEvents) (t.numActiveUiqs - newUiqCount b numEvents))
        (t := t) fun i hi => by
        have := (List.mem_range'_1.mp hi).2
        omega
    rw [h₁]
    exact ⟨_, rfl⟩
  · exact ⟨_, rfl⟩

end Calls

/-! ### Runs -/

/-- Every slot below the active count holds a queue that is there. -/
def TableOk (t : UiqTable) : Prop :=
  t.numActiveUiqs ≤ t.uiqcnt 0 ∧ ∀ i < t.numActiveUiqs, ∃ u, t.uiqs i = some u ∧ u.ref ∉ t.removed

/-- The last call, with the table in front of it. -/
inductive VaCall where
  | alloc (before : UiqTable) (numEvents : UInt32) (ret : Option AllocError)
  | del (before : UiqTable)

structure VaSys where
  table : UiqTable
  last : Option VaCall := none

inductive VaEvent where
  | allocVaEvents (numEvents : UInt32) (krealloc : Bool) (inits : Nat → Option Errno)
  | delUiqs

def vaStep (b : UiqBoard) (s : VaSys) : VaEvent → Option VaSys
  | .allocVaEvents numEvents krealloc inits => do
    let (t, ret) ← me6AllocVaEventUiqs b s.table numEvents krealloc inits
    some ⟨t, some (.alloc s.table numEvents ret)⟩
  | .delUiqs => do
    let t ← menDelUiqs s.table 0
    some ⟨t, some (.del s.table)⟩

def VaOk (b : UiqBoard) (s : VaSys) : Prop :=
  TableOk s.table ∧
    match s.last with
    | none => True
    | some (.alloc before numEvents ret) => AllocOk b numEvents before s.table ret
    | some (.del before) => DelOk before s.table

def VaSafe (b : UiqBoard) (s : VaSys) : VaEvent → Prop
  | .allocVaEvents numEvents krealloc inits => AllocSafe b s.table numEvents krealloc inits
  | .delUiqs => s.table.numActiveUiqs = s.table.uiqcnt 0

/-- A board after `me6_add_uiqs`. -/
def boardSys (b : UiqBoard) (inits : Nat → Option Errno) : VaSys :=
  match me6AddUiqs b inits with
  | some (t, _) => ⟨t, none⟩
  | none => ⟨{}, none⟩

section Runs
variable {b : UiqBoard} {s s' : VaSys} {e : VaEvent}

theorem TableInv.tableOk {t : UiqTable} (ht : TableInv t) : TableOk t := by
  refine ⟨ht.active, fun i hi => ?_⟩
  have hc : i < t.uiqcnt 0 := Nat.lt_of_lt_of_le hi ht.active
  obtain ⟨u, hu⟩ := Option.isSome_iff_exists.mp (ht.holds.slots i hc)
  refine ⟨u, hu, fun hremoved => ?_⟩
  have hslot : u.ref ∈ slotRefs t.uiqs (t.uiqcnt 0) :=
    List.mem_filterMap.mpr ⟨i, List.mem_range.mpr hc, by rw [hu]; rfl⟩
  have hnodup := ht.holds.ledger.nodup_iff.mpr List.nodup_range
  exact (List.nodup_append.mp hnodup).2.2 _ hslot _ hremoved rfl

theorem vaStep_total (hs : TableInv s.table) (e : VaEvent) : ∃ s', vaStep b s e = some s' := by
  cases e with
  | allocVaEvents numEvents krealloc inits =>
    obtain ⟨⟨t, ret⟩, h⟩ := me6AllocVaEventUiqs_total hs b numEvents krealloc inits
    exact ⟨_, by rw [vaStep, h]; rfl⟩
  | delUiqs =>
    obtain ⟨t, h, _⟩ := menDelUiqs_eq hs
    exact ⟨_, by rw [vaStep, h]; rfl⟩

theorem vaStep_spec (hs : TableInv s.table) (h : vaStep b s e = some s') :
    (VaSafe b s e → TableInv s'.table ∧ VaOk b s') ∧ (VaOk b s' → VaSafe b s e) := by
  cases e with
  | allocVaEvents numEvents krealloc inits =>
    obtain ⟨⟨t, ret⟩, h₁, h⟩ := Option.bind_eq_some_iff.mp h
    cases h
    obtain ⟨hinv, hiff⟩ := me6AllocVaEventUiqs_spec hs h₁
    exact ⟨fun hG => ⟨hinv, hinv.tableOk, hiff.mpr hG⟩, fun hok => hiff.mp hok.2⟩
  | delUiqs =>
    obtain ⟨t, h₁, h⟩ := Option.bind_eq_some_iff.mp h
    cases h
    obtain ⟨hiff, hinv⟩ := menDelUiqs_spec hs h₁
    exact ⟨fun hG => ⟨hinv hG, (hinv hG).tableOk, hiff.mpr hG⟩, fun hok => hiff.mp hok.2⟩

theorem va_events_ok_iff (b : UiqBoard) (inits : Nat → Option Errno) (es : List VaEvent) :
    Always (ofOption (vaStep b)) (VaOk b) (boardSys b inits) es ↔
      Meets (ofOption (vaStep b)) (VaSafe b) (boardSys b inits) es := by
  obtain ⟨t, ret, hadd, hinv⟩ := me6AddUiqs_ok b inits
  have hstart : boardSys b inits = ⟨t, none⟩ := by
    rw [boardSys, hadd]
  rw [hstart]
  refine always_iff_meets (P := fun s => TableInv s.table ∧ VaOk b s) (fun s hs => hs.2)
    (fun s e s' hs h => ?_)
    ⟨hinv, hinv.tableOk, trivial⟩ es
  exact vaStep_spec hs.1 (ofOption_ok.mp h)

end Runs

section Example

/-- A board with sixteen declared queues, as the impulse boards with four channels have. -/
def boardOf16 : UiqBoard :=
  { decls := (List.range 16).map (0x100 + ·), numUiqDeclarations := 16, fits := by decide, le := by decide }

/-- Eight event queues, four of them, and six. -/
def shrinkThenGrow : List VaEvent :=
  [.allocVaEvents 8 true fun _ => none, .allocVaEvents 4 true fun _ => none,
    .allocVaEvents 6 true fun _ => none]

/-- The last call asked for six event queues and got none of the twenty. -/
def sixRefused (s : VaSys) : Bool :=
  match s.last with
  | some (.alloc _ numEvents ret) => decide (numEvents = 6 ∧ ret = none ∧ s.table.numActiveUiqs = 20)
  | _ => false

theorem parked_stay_parked : ∃ s, run (ofOption (vaStep boardOf16)) (boardSys boardOf16 fun _ => none)
    shrinkThenGrow = .ok s ∧ ¬ VaOk boardOf16 s := by
  obtain ⟨s, hs, hp⟩ := exists_of_check (ofOption (vaStep boardOf16)) (boardSys boardOf16 fun _ => none)
    shrinkThenGrow sixRefused (by decide +kernel)
  refine ⟨s, hs, fun hok => ?_⟩
  unfold sixRefused at hp
  split at hp
  · rename_i before numEvents ret hlast
    obtain ⟨rfl, rfl, hactive⟩ := of_decide_eq_true hp
    have hcall := hok.2
    rw [hlast] at hcall
    have := hcall.1 rfl
    rw [hactive] at this
    exact absurd this (by decide)
  · cases hp

end Example

end MenableDriver
