import MenableDriver.Controllers.ReadBurst
import MenableDriver.Controllers.WriteBurst
import Mathlib.Data.List.Infix

/-!
# Transactions

`process_transaction` runs the bursts of a request on a controller, between the begin and the end of a
transaction and under the controller's lock. What user memory holds, which copies and allocations succeed and
what the hooks answer comes from outside, for each burst anew. An access through a null pointer is a fault of
the kernel: nothing more happens in this call, and the lock is not released.
-/

namespace MenableDriver

set_option autoImplicit false

def ENODEV : Int := 19
def EINVAL : Int := 22
def EFAULT : Int := 14

/-- `MULTICHAR32('D', 'U', 'M', 'Y')`. -/
def DUMMY_PERIPHERAL_ID : Word := 0x44554d59#32

def BURST_TYPE_WRITE : Word := 1#32
def BURST_TYPE_READ : Word := 2#32
def BURST_TYPE_STATE_CHANGE : Word := 3#32
def BURST_TYPE_COMMAND : Word := 4#32

/-- `sizeof(command_burst_header)`. -/
def commandBurstHeaderSize : Nat := 8

/-- `struct burst_header`; where the buffer is makes a difference only for what the copies do. -/
structure BurstHeader where
  type : Word
  flags : Word
  len : Word
deriving DecidableEq

/-- A controller as `get_controller` gives it. `controller_base_super_init`, with which the bus controllers are
made, sets the pointers to the hooks to null and has no command bursts. -/
structure Controller where
  base : ControllerBase
  hasHooks : Bool
  handleBeginTransaction : Option Int

/-- `begin_transaction`; that of a bus controller is the one of the core. -/
def ctrlBeginTransaction (ctrl : Controller) : Int := ctrl.handleBeginTransaction.getD STATUS_OK

structure TransactionHeader where
  peripheral : Word
  numBursts : Word

/-- What comes from outside, for each burst of a transaction. The result of copying the header is not looked at,
so the header may be anything. -/
structure TransactionEnv where
  burstHeader : Nat → BurstHeader
  vmalloc : Nat → Bool
  /-- How many bytes were not copied. -/
  copyFromUser : Nat → Nat
  copyToUser : Nat → Nat
  userByte : Nat → Nat → BitVec 8
  hooks : Nat → Hooks
  /-- The hook that was called last stores a byte into the buffer of a read burst. -/
  stores : Nat → List BurstCall → Bool
  executeCommand : Nat → List (BitVec 8) → Int

namespace TransactionEnv

/-- The buffer of a burst. -/
def buffer (env : TransactionEnv) (i len : Nat) : List (BitVec 8) := (List.range len).map (env.userByte i)

/-- `copy_from_user` into the new buffer. None of the bytes can be copied to where a null pointer leads. -/
def fillBuffer (env : TransactionEnv) (i len : Nat) : Nat := if env.vmalloc i then env.copyFromUser i else len

end TransactionEnv

def ctrlCommandExecutionBurst (ctrl : Controller) (env : TransactionEnv) (i : Nat)
    (buffer : List (BitVec 8)) : Int :=
  if !ctrl.hasHooks then STATUS_ERR_INVALID_OPERATION
  else if buffer.length < commandBurstHeaderSize then STATUS_ERR_INVALID_ARGUMENT
  else env.executeCommand i buffer

/-- How a turn of the loop over the bursts ends. -/
inductive TurnEnd
  | goesOn | error | fault
deriving DecidableEq

def TurnEnd.ofRet (ret : Int) : TurnEnd := if ret = 0 then .goesOn else .error

/-- A turn of the loop, with the calls of hooks in it. -/
def transactionTurn (ctrl : Controller) (env : TransactionEnv) (i : Nat) (st : BurstState) :
    TurnEnd × BurstState × List BurstCall :=
  let bh := env.burstHeader i
  let len := bh.len.toNat
  if len = 0 ∧ bh.type ≠ BURST_TYPE_STATE_CHANGE then (.goesOn, st, [])
  else if bh.type = BURST_TYPE_WRITE then
    if env.fillBuffer i len ≠ 0 then (.error, st, [])
    else
      let (ret, st) := ctrlWriteBurst ctrl.base (env.hooks i) st bh.flags (env.buffer i len)
      (.ofRet ret, st, st.calls)
  else if bh.type = BURST_TYPE_READ then
    let (ret, st) := ctrlReadBurst ctrl.base (env.hooks i) st bh.flags len
    match if env.vmalloc i then none else st.calls.inits.find? (env.stores i) with
    | some calls => (.fault, st, calls)
    | none => if ret ≠ 0 then (.error, st, st.calls) else (.ofRet (env.copyToUser i), st, st.calls)
  else if bh.type = BURST_TYPE_STATE_CHANGE then
    if !ctrl.hasHooks then (.fault, st, [])
    else
      let st := { st with calls := [] }.record (.handlePostBurstFlags bh.flags)
      (.ofRet (env.hooks i st.calls), st, st.calls)
  else if bh.type = BURST_TYPE_COMMAND then
    if !env.vmalloc i then (.error, st, [])
    else if env.copyFromUser i ≠ 0 then (.error, st, [])
    else (.ofRet (ctrlCommandExecutionBurst ctrl env i (env.buffer i len)), st, [])
  else (.goesOn, st, [])

inductive TransactionEvent
  | lock | unlock
  | beginTransaction (ret : Int)
  | endTransaction
  | hook (call : BurstCall)
deriving DecidableEq

/-- The loop, for the bursts from `i` on. -/
def transactionLoop (ctrl : Controller) (env : TransactionEnv) :
    Nat → Nat → BurstState → TurnEnd × List TransactionEvent
  | 0, _, _ => (.goesOn, [])
  | todo + 1, i, st =>
    match transactionTurn ctrl env i st with
    | (.goesOn, st, calls) =>
      let (turnEnd, events) := transactionLoop ctrl env todo (i + 1) st
      (turnEnd, calls.map .hook ++ events)
    | (turnEnd, _, calls) => (turnEnd, calls.map .hook)

/-- The work between the lock and its release, and what the call returns. -/
def runTransaction (ctrl : Controller) (env : TransactionEnv) (st : BurstState) (numBursts : Nat) :
    Option Int × List TransactionEvent :=
  let ret := ctrlBeginTransaction ctrl
  if ret ≠ 0 then (some (-EFAULT), [.lock, .beginTransaction ret, .unlock])
  else
    let (turnEnd, events) := transactionLoop ctrl env numBursts 0 st
    match turnEnd with
    | .goesOn => (some 0, [.lock, .beginTransaction ret] ++ events ++ [.endTransaction, .unlock])
    | .error => (some (-EFAULT), [.lock, .beginTransaction ret] ++ events ++ [.unlock])
    | .fault => (none, [.lock, .beginTransaction ret] ++ events)

/-- `process_transaction`. A board without controllers has no `get_controller`. -/
def processTransaction (getController : Option (Word → Option Controller)) (th : TransactionHeader)
    (env : TransactionEnv) (st : BurstState) : Option Int × List TransactionEvent :=
  if th.peripheral = DUMMY_PERIPHERAL_ID then (some 0, [])
  else
    match getController with
    | none => (some (-ENODEV), [])
    | some getController =>
      match getController th.peripheral with
      | none => (some (-EINVAL), [])
      | some ctrl => runTransaction ctrl env st th.numBursts.toNat

/-! ### The balance -/

/-- What ends a transaction: the call for it, or the abort of a burst. -/
def TransactionEvent.closes : TransactionEvent → Bool
  | .endTransaction => true
  | .hook call => call.hook = .burstAborted
  | _ => false

/-- Every begin that succeeded is followed by one end or abort before the lock is released. -/
def TransactionBalanced (events : List TransactionEvent) : Prop :=
  ∀ before after, events = before ++ .beginTransaction STATUS_OK :: after →
    ∃ held rest, after = held ++ .unlock :: rest ∧ .unlock ∉ held ∧ held.countP TransactionEvent.closes = 1

/-- The burst fails, but not in a call of a hook that a write or a read burst makes. -/
def FailsOutside (ctrl : Controller) (env : TransactionEnv) (i : Nat) (st : BurstState) : Prop :=
  let bh := env.burstHeader i
  let len := bh.len.toNat
  bh.type = BURST_TYPE_STATE_CHANGE ∧ (ctrl.hasHooks = false ∨
      env.hooks i ({ st with calls := [] }.record (.handlePostBurstFlags bh.flags)).calls ≠ 0) ∨
    len ≠ 0 ∧ (bh.type = BURST_TYPE_WRITE ∧ (env.vmalloc i = false ∨ env.copyFromUser i ≠ 0) ∨
      bh.type = BURST_TYPE_READ ∧
        (env.vmalloc i = false ∧
            (∃ calls, calls <+: (ctrlReadBurst ctrl.base (env.hooks i) st bh.flags len).2.calls ∧
              env.stores i calls = true) ∨
          (ctrlReadBurst ctrl.base (env.hooks i) st bh.flags len).1 = STATUS_OK ∧ env.copyToUser i ≠ 0) ∨
      bh.type = BURST_TYPE_COMMAND ∧ (env.vmalloc i = false ∨ env.copyFromUser i ≠ 0 ∨
        ctrlCommandExecutionBurst ctrl env i (env.buffer i len) ≠ 0))

/-- The loop comes to the burst `i`, with the controller in this state: all bursts before it succeed. -/
inductive TurnReached (ctrl : Controller) (env : TransactionEnv) (st₀ : BurstState) : Nat → BurstState → Prop
  | start : TurnReached ctrl env st₀ 0 st₀
  | next {i : Nat} {st st' : BurstState} {calls : List BurstCall} (h : TurnReached ctrl env st₀ i st)
      (hturn : transactionTurn ctrl env i st = (.goesOn, st', calls)) : TurnReached ctrl env st₀ (i + 1) st'

variable {ctrl : Controller} {env : TransactionEnv} {i n todo : Nat} {st st' st₀ : BurstState}
  {calls : List BurstCall} {events : List TransactionEvent}

theorem failsOutside_write (ht : (env.burstHeader i).type = BURST_TYPE_WRITE)
    (hlen : (env.burstHeader i).len.toNat ≠ 0) :
    FailsOutside ctrl env i st ↔ env.vmalloc i = false ∨ env.copyFromUser i ≠ 0 := by
  simp [FailsOutside, ht, hlen, BURST_TYPE_WRITE, BURST_TYPE_READ, BURST_TYPE_STATE_CHANGE,
    BURST_TYPE_COMMAND]

theorem failsOutside_read (ht : (env.burstHeader i).type = BURST_TYPE_READ)
    (hlen : (env.burstHeader i).len.toNat ≠ 0) :
    FailsOutside ctrl env i st ↔ env.vmalloc i = false ∧
        (∃ calls, calls <+: (ctrlReadBurst ctrl.base (env.hooks i) st (env.burstHeader i).flags
            (env.burstHeader i).len.toNat).2.calls ∧ env.stores i calls = true) ∨
      (ctrlReadBurst ctrl.base (env.hooks i) st (env.burstHeader i).flags
        (env.burstHeader i).len.toNat).1 = STATUS_OK ∧ env.copyToUser i ≠ 0 := by
  simp [FailsOutside, ht, hlen, BURST_TYPE_WRITE, BURST_TYPE_READ, BURST_TYPE_STATE_CHANGE,
    BURST_TYPE_COMMAND]

theorem failsOutside_stateChange (ht : (env.burstHeader i).type = BURST_TYPE_STATE_CHANGE) :
    FailsOutside ctrl env i st ↔ ctrl.hasHooks = false ∨ env.hooks i
      ({ st with calls := [] }.record (.handlePostBurstFlags (env.burstHeader i).flags)).calls ≠ 0 := by
  simp [FailsOutside, ht, BURST_TYPE_WRITE, BURST_TYPE_READ, BURST_TYPE_STATE_CHANGE, BURST_TYPE_COMMAND]

theorem failsOutside_command (ht : (env.burstHeader i).type = BURST_TYPE_COMMAND)
    (hlen : (env.burstHeader i).len.toNat ≠ 0) :
    FailsOutside ctrl env i st ↔ env.vmalloc i = false ∨ env.copyFromUser i ≠ 0 ∨
      ctrlCommandExecutionBurst ctrl env i (env.buffer i (env.burstHeader i).len.toNat) ≠ 0 := by
  simp [FailsOutside, ht, hlen, BURST_TYPE_WRITE, BURST_TYPE_READ, BURST_TYPE_STATE_CHANGE,
    BURST_TYPE_COMMAND]

/-- How many ends and aborts a turn may have, and whether it fails outside of a write or read burst. -/
inductive TurnCloses (fails : Prop) : TurnEnd → Nat → Prop
  | goesOn (h : ¬fails) : TurnCloses fails .goesOn 0
  | outside (h : fails) : TurnCloses fails .error 0
  | inside (h : ¬fails) : TurnCloses fails .error 1
  | fault (h : fails) (n : Nat) : TurnCloses fails .fault n

def closings (calls : List BurstCall) : Nat := (calls.map TransactionEvent.hook).countP
    TransactionEvent.closes

theorem closings_eq (calls : List BurstCall) :
    closings calls = (calls.filter fun call => call.hook = .burstAborted).length := by
  rw [closings, List.countP_map, List.countP_eq_length_filter]
  rfl

/-- A write or read burst aborts once if it fails, and else not at all. -/
theorem burst_closes {hooks : Hooks} {ret : Int} (h : EndsOnFailure hooks ret st) :
    ret = STATUS_OK ∧ closings st.calls = 0 ∨ ret = STATUS_ERROR ∧ closings st.calls = 1 := by
  have honce := h.once
  rw [closings_eq]
  rcases h.status with rfl | rfl
  · exact Or.inl ⟨rfl, honce⟩
  · exact Or.inr ⟨rfl, honce⟩

theorem TurnCloses.ofRet {fails : Prop} {ret : Int} (h : ret = STATUS_OK ∧ n = 0 ∨ ret = STATUS_ERROR ∧ n = 1)
    (hfails : ¬fails) : TurnCloses fails (.ofRet ret) n := by
  rcases h with ⟨rfl, rfl⟩ | ⟨rfl, rfl⟩
  · exact .goesOn hfails
  · exact .inside hfails

/-- A failure that nobody aborts. -/
theorem TurnCloses.ofRet_outside {fails : Prop} {ret : Int} (h : fails ↔ ret ≠ 0) :
    TurnCloses fails (.ofRet ret) 0 := by
  by_cases hret : ret = 0
  · rw [TurnEnd.ofRet, if_pos hret]
    exact .goesOn fun hfails => h.mp hfails hret
  · rw [TurnEnd.ofRet, if_neg hret]
    exact .outside (h.mpr hret)

theorem ctrlWriteBurst_closes (ctrl : ControllerBase) (hooks : Hooks) (st : BurstState) (flags : Word)
    (buf : List (BitVec 8)) :
    (ctrlWriteBurst ctrl hooks st flags buf).1 = STATUS_OK ∧
        closings (ctrlWriteBurst ctrl hooks st flags buf).2.calls = 0 ∨
      (ctrlWriteBurst ctrl hooks st flags buf).1 = STATUS_ERROR ∧
        closings (ctrlWriteBurst ctrl hooks st flags buf).2.calls = 1 :=
  burst_closes (ctrlWriteBurst_ends ctrl hooks st flags buf)

theorem ctrlReadBurst_closes (ctrl : ControllerBase) (hooks : Hooks) (st : BurstState) (flags : Word)
    (size : Nat) :
    (ctrlReadBurst ctrl hooks st flags size).1 = STATUS_OK ∧
        closings (ctrlReadBurst ctrl hooks st flags size).2.calls = 0 ∨
      (ctrlReadBurst ctrl hooks st flags size).1 = STATUS_ERROR ∧
        closings (ctrlReadBurst ctrl hooks st flags size).2.calls = 1 :=
  burst_closes (ctrlReadBurst_ends ctrl hooks st flags size)

theorem fillBuffer_ne_zero (hlen : n ≠ 0) :
    env.fillBuffer i n ≠ 0 ↔ env.vmalloc i = false ∨ env.copyFromUser i ≠ 0 := by
  unfold TransactionEnv.fillBuffer
  cases env.vmalloc i with
  | false => simp [hlen]
  | true => simp

/-- The read burst stores into a buffer that there is not. -/
theorem read_fault (env : TransactionEnv) (i : Nat) (calls : List BurstCall) :
    (env.vmalloc i = false ∧ ∃ front, front <+: calls ∧ env.stores i front = true) ↔
      ∃ front, (if env.vmalloc i then none else calls.inits.find? (env.stores i)) = some front := by
  cases env.vmalloc i with
  | true => simp
  | false =>
    simp only [true_and, Bool.false_eq_true, if_false]
    rw [← Option.isSome_iff_exists, List.find?_isSome]
    simp only [List.mem_inits]

/-- A read burst that fails has aborted itself, one whose data cannot be copied out has not. -/
theorem readTurn_closes {fails : Prop} {burst : Int × BurstState}
    (hburst : burst.1 = STATUS_OK ∧ closings burst.2.calls = 0 ∨
      burst.1 = STATUS_ERROR ∧ closings burst.2.calls = 1)
    (hfails : fails ↔
      (∃ front, (if env.vmalloc i then none else burst.2.calls.inits.find? (env.stores i)) = some front) ∨
        burst.1 = STATUS_OK ∧ env.copyToUser i ≠ 0) :
    let turn : TurnEnd × BurstState × List BurstCall :=
      match if env.vmalloc i then none else burst.2.calls.inits.find? (env.stores i) with
      | some calls => (.fault, burst.2, calls)
      | none =>
        if burst.1 ≠ 0 then (.error, burst.2, burst.2.calls)
        else (.ofRet (env.copyToUser i), burst.2, burst.2.calls)
    TurnCloses fails turn.1 (closings turn.2.2) := by
  dsimp only
  cases hfault : if env.vmalloc i then none else burst.2.calls.inits.find? (env.stores i) with
  | some front => exact .fault (hfails.mpr (Or.inl ⟨front, hfault⟩)) _
  | none =>
    have hnone : ¬∃ front, (if env.vmalloc i then none else burst.2.calls.inits.find? (env.stores i)) =
        some front := by
      rintro ⟨front, h⟩
      rw [hfault] at h
      exact absurd h (by simp)
    rw [or_iff_right hnone] at hfails
    dsimp only
    rcases hburst with ⟨hret, hclosed⟩ | ⟨hret, hclosed⟩
    · have hret0 : ¬burst.1 ≠ 0 := not_not.mpr hret
      rw [if_neg hret0, hclosed]
      apply TurnCloses.ofRet_outside
      rw [hfails, and_iff_right hret]
      exact Int.natCast_ne_zero.symm
    · have hok : ¬STATUS_ERROR = STATUS_OK := by decide
      have hret1 : burst.1 ≠ 0 := by
        rw [hret]
        exact hok
      rw [if_pos hret1, hclosed]
      apply TurnCloses.inside
      intro h
      exact hret1 (hfails.mp h).1

theorem transactionTurn_closes (ctrl : Controller) (env : TransactionEnv) (i : Nat) (st : BurstState) :
    TurnCloses (FailsOutside ctrl env i st) (transactionTurn ctrl env i st).1
      (closings (transactionTurn ctrl env i st).2.2) := by
  unfold transactionTurn
  dsimp only
  by_cases hskip : (env.burstHeader i).len.toNat = 0 ∧ (env.burstHeader i).type ≠ BURST_TYPE_STATE_CHANGE
  · rw [if_pos hskip]
    apply TurnCloses.goesOn
    rintro (⟨ht, -⟩ | ⟨hlen, -⟩)
    · exact hskip.2 ht
    · exact hlen hskip.1
  rw [if_neg hskip]
  have hlen : (env.burstHeader i).type ≠ BURST_TYPE_STATE_CHANGE → (env.burstHeader i).len.toNat ≠ 0 :=
    fun ht hlen => hskip ⟨hlen, ht⟩
  by_cases hwrite : (env.burstHeader i).type = BURST_TYPE_WRITE
  · have hlen := hlen (by rw [hwrite]; decide)
    have hfails := @failsOutside_write ctrl env i st hwrite hlen
    rw [if_pos hwrite]
    by_cases hfill : env.fillBuffer i (env.burstHeader i).len.toNat ≠ 0
    · rw [if_pos hfill]
      exact .outside (hfails.mpr ((fillBuffer_ne_zero hlen).mp hfill))
    · rw [if_neg hfill]
      exact .ofRet (ctrlWriteBurst_closes _ _ _ _ _) fun h =>
        hfill ((fillBuffer_ne_zero hlen).mpr (hfails.mp h))
  rw [if_neg hwrite]
  by_cases hread : (env.burstHeader i).type = BURST_TYPE_READ
  · have hfails := @failsOutside_read ctrl env i st hread (hlen (by rw [hread]; decide))
    have hburst := ctrlReadBurst_closes ctrl.base (env.hooks i) st (env.burstHeader i).flags
      (env.burstHeader i).len.toNat
    rw [read_fault] at hfails
    rw [if_pos hread]
    exact readTurn_closes hburst hfails
  rw [if_neg hread]
  by_cases hstate : (env.burstHeader i).type = BURST_TYPE_STATE_CHANGE
  · have hfails := @failsOutside_stateChange ctrl env i st hstate
    rw [if_pos hstate]
    cases hhooks : ctrl.hasHooks with
    | false => exact .fault (hfails.mpr (Or.inl hhooks)) _
    | true =>
      have hnot : ¬true = false := by decide
      rw [hhooks, or_iff_right hnot] at hfails
      exact .ofRet_outside hfails
  rw [if_neg hstate]
  by_cases hcommand : (env.burstHeader i).type = BURST_TYPE_COMMAND
  · have hfails := @failsOutside_command ctrl env i st hcommand (hlen hstate)
    rw [if_pos hcommand]
    cases hmem : env.vmalloc i with
    | false => exact .outside (hfails.mpr (Or.inl hmem))
    | true =>
      have hnot : ¬true = false := by decide
      rw [hmem, or_iff_right hnot] at hfails
      by_cases hcopy : env.copyFromUser i ≠ 0
      · rw [if_neg (by decide), if_pos hcopy]
        exact .outside (hfails.mpr (Or.inl hcopy))
      · rw [if_neg (by decide), if_neg hcopy]
        rw [or_iff_right hcopy] at hfails
        exact .ofRet_outside hfails
  rw [if_neg hcommand]
  apply TurnCloses.goesOn
  rintro (⟨ht, -⟩ | ⟨-, ⟨ht, -⟩ | ⟨ht, -⟩ | ⟨ht, -⟩⟩)
  · exact hstate ht
  · exact hwrite ht
  · exact hread ht
  · exact hcommand ht

/-! ### The loop -/

theorem TurnReached.unique (h : TurnReached ctrl env st₀ i st) :
    ∀ st', TurnReached ctrl env st₀ i st' → st = st' := by
  induction h with
  | start =>
    intro st' h'
    cases h'
    rfl
  | next h hturn ih =>
    intro st' h'
    cases h' with
    | next h' hturn' =>
      obtain rfl := ih _ h'
      rw [hturn] at hturn'
      exact (Prod.mk.inj (Prod.mk.inj hturn').2).1

/-- The turns before one that is reached go on. -/
theorem TurnReached.goesOn {k : Nat} (h : TurnReached ctrl env st₀ k st') (hik : i < k)
    (hi : TurnReached ctrl env st₀ i st) : (transactionTurn ctrl env i st).1 = .goesOn := by
  induction h with
  | start => exact absurd hik (Nat.not_lt_zero i)
  | next h hturn ih =>
    rcases Nat.lt_succ_iff_lt_or_eq.mp hik with hlt | rfl
    · exact ih hlt
    · obtain rfl := h.unique _ hi
      rw [hturn]

/-- One of the bursts in this part of the loop fails outside. -/
def PartFails (ctrl : Controller) (env : TransactionEnv) (st₀ : BurstState) (i todo : Nat) : Prop :=
  ∃ k st', i ≤ k ∧ k < i + todo ∧ TurnReached ctrl env st₀ k st' ∧ FailsOutside ctrl env k st'

theorem partFails_of_goesOn (hi : TurnReached ctrl env st₀ i st) (hnot : ¬FailsOutside ctrl env i st) :
    PartFails ctrl env st₀ i (todo + 1) ↔ PartFails ctrl env st₀ (i + 1) todo := by
  constructor
  · rintro ⟨k, st', hik, hk, hreached, hfails⟩
    have hne : i ≠ k := by
      rintro rfl
      obtain rfl := hi.unique _ hreached
      exact hnot hfails
    exact ⟨k, st', by omega, by omega, hreached, hfails⟩
  · rintro ⟨k, st', hik, hk, hreached, hfails⟩
    exact ⟨k, st', by omega, by omega, hreached, hfails⟩

/-- A turn that does not go on is the final one. -/
theorem partFails_of_not_goesOn (hi : TurnReached ctrl env st₀ i st)
    (hend : (transactionTurn ctrl env i st).1 ≠ .goesOn) :
    PartFails ctrl env st₀ i (todo + 1) ↔ FailsOutside ctrl env i st := by
  constructor
  · rintro ⟨k, st', hik, -, hreached, hfails⟩
    rcases Nat.lt_or_eq_of_le hik with hlt | rfl
    · exact absurd (hreached.goesOn hlt hi) hend
    · obtain rfl := hi.unique _ hreached
      exact hfails
  · intro hfails
    exact ⟨i, st, Nat.le_refl i, by omega, hi, hfails⟩

theorem TurnCloses.congr {p q : Prop} {turnEnd : TurnEnd} (h : p ↔ q) (hp : TurnCloses p turnEnd n) :
    TurnCloses q turnEnd n := by
  rw [← h]
  exact hp

theorem transactionLoop_closes (todo : Nat) : ∀ i st, TurnReached ctrl env st₀ i st →
    TurnCloses (PartFails ctrl env st₀ i todo) (transactionLoop ctrl env todo i st).1
      ((transactionLoop ctrl env todo i st).2.countP TransactionEvent.closes) := by
  induction todo with
  | zero =>
    intro i st _
    apply TurnCloses.goesOn
    rintro ⟨k, _, hik, hk, -⟩
    omega
  | succ todo ih =>
    intro i st hi
    have hturn := transactionTurn_closes ctrl env i st
    unfold transactionLoop
    rcases heq : transactionTurn ctrl env i st with ⟨turnEnd, st', calls⟩
    have hfinal : turnEnd ≠ .goesOn → (PartFails ctrl env st₀ i (todo + 1) ↔ FailsOutside ctrl env i st) := by
      intro hend
      apply partFails_of_not_goesOn hi
      rw [heq]
      exact hend
    rw [heq] at hturn
    dsimp only at hturn
    cases turnEnd with
    | goesOn =>
      have hnext := ih (i + 1) st' (hi.next heq)
      generalize hclosed : closings calls = closed at hturn
      cases hturn with
      | goesOn hnot =>
        dsimp only
        rw [List.countP_append]
        have hcalls : (calls.map TransactionEvent.hook).countP TransactionEvent.closes = 0 := hclosed
        rw [hcalls, Nat.zero_add]
        exact hnext.congr (partFails_of_goesOn hi hnot).symm
    | error => exact hturn.congr (hfinal (by decide)).symm
    | fault => exact hturn.congr (hfinal (by decide)).symm

theorem transactionLoop_hooks (todo : Nat) : ∀ i st, ∀ event ∈ (transactionLoop ctrl env todo i st).2,
    ∃ call, event = .hook call := by
  have hmap : ∀ calls : List BurstCall, ∀ event ∈ calls.map TransactionEvent.hook, ∃ call, event =
      .hook call := by
    intro calls event hmem
    obtain ⟨call, -, rfl⟩ := List.mem_map.mp hmem
    exact ⟨call, rfl⟩
  induction todo with
  | zero =>
    intro i st event hmem
    exact absurd hmem (by simp [transactionLoop])
  | succ todo ih =>
    intro i st event hmem
    unfold transactionLoop at hmem
    rcases heq : transactionTurn ctrl env i st with ⟨turnEnd, st', calls⟩
    rw [heq] at hmem
    cases turnEnd with
    | goesOn =>
      rcases List.mem_append.mp hmem with hmem | hmem
      · exact hmap calls event hmem
      · exact ih _ _ event hmem
    | error => exact hmap calls event hmem
    | fault => exact hmap calls event hmem

/-! ### The law -/

/-- There is one begin, and the part up to the first release of the lock counts. -/
theorem balanced_iff {rest : List TransactionEvent} (hbegin : .beginTransaction STATUS_OK ∉ rest) :
    TransactionBalanced ([.lock, .beginTransaction STATUS_OK] ++ rest) ↔
      ∃ held after, rest = held ++ .unlock :: after ∧ .unlock ∉ held ∧
        held.countP TransactionEvent.closes = 1 := by
  constructor
  · intro h
    exact h [.lock] rest rfl
  · intro h before after heq
    cases before with
    | nil => exact absurd (List.cons.inj heq).1 (by simp)
    | cons e before =>
      have htail := (List.cons.inj heq).2
      cases before with
      | nil =>
        rw [← (List.cons.inj htail).2]
        exact h
      | cons e' before =>
        have hrest : rest = before ++ .beginTransaction STATUS_OK :: after := (List.cons.inj htail).2
        rw [hrest] at hbegin
        exact absurd (List.mem_append_right before List.mem_cons_self) hbegin

theorem held_unique {held held' rest rest' : List TransactionEvent}
    (h : held ++ .unlock :: rest = held' ++ .unlock :: rest') (hheld : .unlock ∉ held)
    (hheld' : .unlock ∉ held') : held = held' := by
  have htake : ∀ held rest : List TransactionEvent, .unlock ∉ held →
      (held ++ .unlock :: rest).takeWhile (fun e => decide (e ≠ .unlock)) = held := by
    intro held rest hnot
    rw [List.takeWhile_append_of_pos]
    · simp
    · intro e he
      exact decide_eq_true fun heq => hnot (heq ▸ he)
  rw [← htake held rest hheld, h, htake held' rest' hheld']

theorem runTransaction_balanced_iff (ctrl : Controller) (env : TransactionEnv) (st : BurstState) (n : Nat) :
    TransactionBalanced (runTransaction ctrl env st n).2 ↔
      (ctrlBeginTransaction ctrl = STATUS_OK → ¬PartFails ctrl env st 0 n) := by
  unfold runTransaction
  dsimp only
  by_cases hbegin : ctrlBeginTransaction ctrl ≠ 0
  · rw [if_pos hbegin]
    refine iff_of_true ?_ fun h => absurd h hbegin
    intro before after heq
    dsimp only at heq
    have hmem : TransactionEvent.beginTransaction STATUS_OK ∈
        [.lock, .beginTransaction (ctrlBeginTransaction ctrl), .unlock] := by
      rw [heq]
      exact List.mem_append_right before List.mem_cons_self
    have hret : STATUS_OK = ctrlBeginTransaction ctrl := by simpa using hmem
    exact absurd hret.symm hbegin
  rw [if_neg hbegin]
  have hok : ctrlBeginTransaction ctrl = STATUS_OK := not_not.mp hbegin
  rw [hok]
  have hcloses := transactionLoop_closes n 0 st (@TurnReached.start ctrl env st)
  have hhooks := @transactionLoop_hooks ctrl env n 0 st
  generalize transactionLoop ctrl env n 0 st = loop at hcloses hhooks ⊢
  obtain ⟨turnEnd, events⟩ := loop
  dsimp only at hcloses hhooks ⊢
  have hnot : ∀ e, (∀ call, e ≠ TransactionEvent.hook call) → e ∉ events := by
    intro e he hmem
    obtain ⟨call, rfl⟩ := hhooks e hmem
    exact he call rfl
  have hunlock := hnot .unlock (by simp)
  have hbegins := hnot (.beginTransaction STATUS_OK) (by simp)
  simp only [forall_const]
  generalize hcount : events.countP TransactionEvent.closes = closed at hcloses
  cases turnEnd with
  | goesOn =>
    dsimp only
    rw [List.append_assoc, balanced_iff (by simp [hbegins])]
    cases hcloses with
    | goesOn hpart =>
      refine iff_of_true ⟨events ++ [.endTransaction], [], by simp, by simp [hunlock], ?_⟩ hpart
      rw [List.countP_append, hcount]
      rfl
  | error =>
    dsimp only
    rw [List.append_assoc, balanced_iff (by simp [hbegins])]
    have hheld : (∃ held after, events ++ [.unlock] = held ++ .unlock :: after ∧ .unlock ∉ held ∧
        held.countP TransactionEvent.closes = 1) ↔ closed = 1 := by
      constructor
      · rintro ⟨held, after, heq, hnotin, hone⟩
        rw [← hcount, held_unique heq hunlock hnotin]
        exact hone
      · intro hone
        exact ⟨events, [], rfl, hunlock, hcount.trans hone⟩
    rw [hheld]
    cases hcloses with
    | outside hpart => exact iff_of_false (by decide) (not_not.mpr hpart)
    | inside hpart => exact iff_of_true rfl hpart
  | fault =>
    dsimp only
    rw [balanced_iff hbegins]
    cases hcloses with
    | fault hpart =>
      refine iff_of_false ?_ (not_not.mpr hpart)
      rintro ⟨held, after, rfl, -⟩
      exact hunlock (by simp)

/-- The controller of a request; the probing call has none. -/
def transactionController (getController : Option (Word → Option Controller)) (th : TransactionHeader) :
    Option Controller :=
  if th.peripheral = DUMMY_PERIPHERAL_ID then none else getController.bind fun get => get th.peripheral

/-- A transaction is balanced unless a burst, the first one that does not succeed, fails outside of the hooks
that a write or a read burst calls. -/
theorem process_transaction_balanced_iff (getController : Option (Word → Option Controller))
    (th : TransactionHeader) (env : TransactionEnv) (st : BurstState) :
    TransactionBalanced (processTransaction getController th env st).2 ↔
      ∀ ctrl, transactionController getController th = some ctrl → ctrlBeginTransaction ctrl = STATUS_OK →
        ∀ i st', i < th.numBursts.toNat → TurnReached ctrl env st i st' → ¬FailsOutside ctrl env i st' := by
  have hempty : TransactionBalanced [] := fun before after h => absurd h (by simp)
  unfold processTransaction transactionController
  by_cases hdummy : th.peripheral = DUMMY_PERIPHERAL_ID
  · rw [if_pos hdummy, if_pos hdummy]
    exact iff_of_true hempty fun ctrl h => absurd h (by simp)
  rw [if_neg hdummy, if_neg hdummy]
  cases getController with
  | none => exact iff_of_true hempty fun ctrl h => absurd h (by simp)
  | some get =>
    dsimp only
    rw [Option.bind_some]
    cases hget : get th.peripheral with
    | none => exact iff_of_true hempty fun ctrl h => absurd h (by simp)
    | some ctrl =>
      dsimp only
      rw [runTransaction_balanced_iff]
      constructor
      · rintro h ctrl' heq hok i st' hi hreached hfails
        obtain rfl := Option.some.inj heq
        exact h hok ⟨i, st', Nat.zero_le i, by omega, hreached, hfails⟩
      · rintro h hok ⟨k, st', -, hk, hreached, hfails⟩
        exact h ctrl rfl hok k st' (by omega) hreached hfails

/-- A controller whose hooks succeed, with the smallest sizes. -/
def plainController : Controller :=
  { base := ⟨⟨1, Nat.one_pos, ShotLimit.one_lt⟩, ⟨1, Nat.one_pos, ShotLimit.one_lt⟩,
      ⟨1, Nat.one_pos, ShotLimit.one_lt⟩, ⟨1, Nat.one_pos, ShotLimit.one_lt⟩⟩
    hasHooks := true
    handleBeginTransaction := some STATUS_OK }

/-- One write burst of four bytes, from an address that cannot be read. -/
def unreadableBuffer : TransactionEnv :=
  { burstHeader := fun _ => ⟨BURST_TYPE_WRITE, 0#32, 4#32⟩
    vmalloc := fun _ => true
    copyFromUser := fun _ => 4
    copyToUser := fun _ => 0
    userByte := fun _ _ => 0#8
    hooks := fun _ => allSucceed
    stores := fun _ _ => false
    executeCommand := fun _ _ => STATUS_OK }

/-- The lock is released between the begin and nothing. -/
theorem process_transaction_unbalanced :
    processTransaction (some fun _ => some plainController) ⟨1#32, 1#32⟩ unreadableBuffer
      ⟨0#8, false, false, []⟩ =
        (some (-EFAULT), [.lock, .beginTransaction STATUS_OK, .unlock]) ∧
      ¬TransactionBalanced [.lock, .beginTransaction STATUS_OK, .unlock] := by
  refine ⟨rfl, fun h => ?_⟩
  obtain ⟨held, rest, heq, hnot, hone⟩ := h [.lock] [.unlock] rfl
  cases held with
  | nil => exact absurd hone (by decide)
  | cons e held =>
    obtain ⟨rfl, -⟩ := List.cons.inj heq
    exact hnot List.mem_cons_self

end MenableDriver
