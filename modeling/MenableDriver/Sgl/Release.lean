import MenableDriver.Data.Ledger
import MenableDriver.Sgl.Userbuf

/-!
# Freeing the blocks of a list

The bus address of a block is kept nowhere but in the block before it, as the pointer that the
device follows. The list is freed by taking the pointers apart again, and a list that could not
be completed is freed the same way.
-/

namespace MenableDriver

set_option autoImplicit false

/-- A chain node of the list, or a block of the pool with its bus address. -/
inductive SglResource
  | node (index : Nat)
  | block (index : Nat) (dma : BitVec 64)
deriving DecidableEq

/-- A `men_dma_chain`. The node and its block have the same number. -/
structure SglNode (β : Type) where
  index : Nat
  sgl : β

/-- The part of a `menable_dmabuf` that is made here. -/
structure UserSgl (β : Type) where
  dma : BitVec 64
  chain : List (SglNode β)

/-- Whether there is memory for the `k`-th node, and the `k`-th block of the pool. -/
structure SglAllocator where
  kzalloc : Nat → Bool
  dmaPoolAlloc : Nat → Option (BitVec 64)

/-- `me5_free_sgl` and `me6_free_sgl`: `ndma` is what a block says about the next one. -/
def freeSgl {β : Type} (ndma : β → BitVec 64) :
    List (SglNode β) → BitVec 64 → Ledger SglResource → Ledger SglResource
  | [], _, l => l
  | res :: n, dma, l =>
    if dma = ndma res.sgl then l
    else freeSgl ndma n (ndma res.sgl) ((l.release (.block res.index dma)).release (.node res.index))

/-! ### The mE6 -/

def me6Ndma (sgl : SglBlock) : BitVec 64 := (sgl.next <<< 1) &&& ~~~3#64

def me6FreeSgl : List (SglNode SglBlock) → BitVec 64 → Ledger SglResource → Ledger SglResource :=
  freeSgl me6Ndma

/-- `createUserbufLoop` with what it takes; the chain is left as it is when there is an error. -/
def me6CreateUserbufLoop (pool : SglAllocator) (payload : Nat) :
    List DmaSegment → SglNode SglBlock → Nat → Nat → Ledger SglResource →
      Option SglFailure × List (SglNode SglBlock) × Ledger SglResource
  | [], chainNode, _, _, l => (none, [chainNode], l)
  | sg :: rest, chainNode, blockEntryIdx, remainingLength, l =>
    let len := if sg.len > remainingLength then remainingLength else sg.len
    let isLast := rest.isEmpty
    match me6SglSize (sg.addr &&& 0xfff).toNat len payload with
    | none => (some .bug, [chainNode], l)
    | some size =>
      match me6SetSglEntry chainNode.sgl blockEntryIdx sg.addr (BitVec.ofNat 32 size) isLast with
      | none => (some .bug, [chainNode], l)
      | some sgl =>
        if blockEntryIdx + 1 = ME6_SGL_ENTRIES ∧ ¬ isLast then
          let k := chainNode.index + 1
          if pool.kzalloc k then
            let l := l.take (.node k)
            match pool.dmaPoolAlloc k with
            | none => (some .noMem, [⟨chainNode.index, sgl⟩], l.release (.node k))
            | some nextBlockAddress =>
              let l := l.take (.block k nextBlockAddress)
              let (error, chain, l) := me6CreateUserbufLoop pool payload rest ⟨k, {}⟩ 0
                (remainingLength - len) l
              (error, ⟨chainNode.index, { sgl with next := (nextBlockAddress >>> 1) ||| 1 }⟩ :: chain, l)
          else (some .noMem, [⟨chainNode.index, sgl⟩], l)
        else
          me6CreateUserbufLoop pool payload rest ⟨chainNode.index, sgl⟩ (blockEntryIdx + 1)
            (remainingLength - len) l

/-- The node 0 is the caller's. -/
def me6CreateUserbufChain (pool : SglAllocator) (pcieDeviceCtrl : BitVec 16) (bufLength : Nat)
    (segs : List DmaSegment) (l : Ledger SglResource) :
    Except SglFailure (UserSgl SglBlock) × Ledger SglResource :=
  match pool.dmaPoolAlloc 0 with
  | none => (.error .noMem, l.release (.node 0))
  | some dma =>
    match me6CreateUserbufLoop pool (payloadSize pcieDeviceCtrl) segs ⟨0, {}⟩ 0 bufLength
      (l.take (.block 0 dma)) with
    | (none, chain, l) => (.ok ⟨dma, chain⟩, l)
    | (some .noMem, chain, l) => (.error .noMem, me6FreeSgl chain dma l)
    | (some .bug, _, l) => (.error .bug, l)

/-! ### The mE5 -/

structure Me5Sgl where
  addr : Nat → BitVec 64 := fun _ => 0
  next : BitVec 64 := 0

/-- `ARRAY_SIZE(pcie4->addr)`. -/
def ME5_SGL_ADDRS : Nat := 7

def me5Ndma (sgl : Me5Sgl) : BitVec 64 := sgl.next &&& ~~~3#64

def me5FreeSgl : List (SglNode Me5Sgl) → BitVec 64 → Ledger SglResource → Ledger SglResource :=
  freeSgl me5Ndma

/-- The block of the dummy buffer, which is its own next one. -/
def me5CreateDummybuf (dma dummypageDma : BitVec 64) : Me5Sgl where
  addr := fun i => if i < ME5_SGL_ADDRS then dummypageDma + 1 else 0
  next := dma + 2

/-- `i` is the number of the segment. -/
def me5CreateUserbufLoop (pool : SglAllocator) (dummy : Me5Sgl) :
    List (BitVec 64) → SglNode Me5Sgl → Nat → Ledger SglResource →
      Option SglFailure × List (SglNode Me5Sgl) × Ledger SglResource
  | [], cur, _, l => (none, [⟨cur.index, { cur.sgl with next := dummy.next }⟩], l)
  | addr :: rest, cur, i, l =>
    let idx := i % ME5_SGL_ADDRS
    let sgl := { cur.sgl with addr := Function.update cur.sgl.addr idx (addr + 1) }
    if idx = ME5_SGL_ADDRS - 1 ∧ ¬ rest.isEmpty then
      let k := cur.index + 1
      if pool.kzalloc k then
        let l := l.take (.node k)
        match pool.dmaPoolAlloc k with
        | none => (some .noMem, [⟨cur.index, sgl⟩], l.release (.node k))
        | some next =>
          let l := l.take (.block k next)
          let (error, chain, l) := me5CreateUserbufLoop pool dummy rest ⟨k, {}⟩ (i + 1) l
          (error, ⟨cur.index, { sgl with next := next + 2 }⟩ :: chain, l)
      else (some .noMem, [⟨cur.index, sgl⟩], l)
    else me5CreateUserbufLoop pool dummy rest ⟨cur.index, sgl⟩ (i + 1) l

/-- `segs` are the bus addresses of the segments. -/
def me5CreateUserbuf (pool : SglAllocator) (dummy : Me5Sgl) (segs : List (BitVec 64))
    (l : Ledger SglResource) : Except SglFailure (UserSgl Me5Sgl) × Ledger SglResource :=
  match pool.dmaPoolAlloc 0 with
  | none => (.error .noMem, l.release (.node 0))
  | some dma =>
    match me5CreateUserbufLoop pool dummy segs ⟨0, {}⟩ 0 (l.take (.block 0 dma)) with
    | (none, chain, l) => (.ok ⟨dma, chain⟩, l)
    | (some .noMem, chain, l) => (.error .noMem, me5FreeSgl chain dma l)
    | (some .bug, _, l) => (.error .bug, l)

/-! ### Walking along the pointers -/

variable {β : Type} {ndma : β → BitVec 64} {pool : SglAllocator} {l : Ledger SglResource} {k n : Nat}
  {e : BitVec 64} {chain : List (SglNode β)}

/-- Where the `k`-th block is. -/
def SglAllocator.dma (pool : SglAllocator) (k : Nat) : BitVec 64 := (pool.dmaPoolAlloc k).getD 0

/-- The nodes are numbered from `k` on, every block points to the next one and the last to `e`. -/
def Chained (ndma : β → BitVec 64) (pool : SglAllocator) (e : BitVec 64) : Nat → List (SglNode β) → Prop
  | _, [] => True
  | k, node :: rest =>
    node.index = k ∧ ndma node.sgl = (if rest.isEmpty then e else pool.dma (k + 1)) ∧
      Chained ndma pool e (k + 1) rest

/-- `n` nodes with their blocks. -/
def chainResources (pool : SglAllocator) : Nat → Nat → List SglResource
  | _, 0 => []
  | k, n + 1 => .block k (pool.dma k) :: .node k :: chainResources pool (k + 1) n

/-- What the kernel promises of the blocks that are in use, the dummy buffer's among them. -/
structure LiveBlocks (pool : SglAllocator) (dummy : BitVec 64) : Prop where
  nonzero : ∀ k a, pool.dmaPoolAlloc k = some a → a ≠ 0
  word : ∀ k a, pool.dmaPoolAlloc k = some a → 4 ∣ a.toNat
  distinct : ∀ j k a, pool.dmaPoolAlloc j = some a → pool.dmaPoolAlloc k = some a → j = k
  notDummy : ∀ k, pool.dmaPoolAlloc k ≠ some dummy
  dummyWord : 4 ∣ dummy.toNat

/-- The blocks from `k` on were all taken. -/
def BlocksTaken (pool : SglAllocator) (k n : Nat) : Prop := ∀ j, k ≤ j → j < k + n →
    (pool.dmaPoolAlloc j).isSome

theorem dmaPoolAlloc_of_isSome (h : (pool.dmaPoolAlloc k).isSome) : pool.dmaPoolAlloc k =
    some (pool.dma k) := by
  obtain ⟨a, ha⟩ := Option.isSome_iff_exists.mp h
  rw [SglAllocator.dma, ha]
  rfl

/-- The walk stops behind the last block and at no other. -/
theorem freeSgl_eq {dummy : BitVec 64} (hlive : LiveBlocks pool dummy)
    (hend : e = 0 ∨ e = dummy) (hchain : Chained ndma pool e k chain)
      (htaken : BlocksTaken pool k chain.length) :
    freeSgl ndma chain (pool.dma k) l = l.releaseAll (chainResources pool k chain.length).reverse := by
  induction chain generalizing k l with
  | nil => rfl
  | cons node rest ih =>
    obtain ⟨hindex, hnext, hrest⟩ := hchain
    have hfirst := dmaPoolAlloc_of_isSome (htaken k (Nat.le_refl k) (by simp))
    have hgo : pool.dma k ≠ ndma node.sgl := by
      rw [hnext]
      intro heq
      by_cases hlast : rest.isEmpty = true
      · rw [if_pos hlast] at heq
        rcases hend with rfl | rfl
        · exact hlive.nonzero k _ hfirst heq
        · exact hlive.notDummy k (heq ▸ hfirst)
      · rw [if_neg hlast] at heq
        have hpos : 0 < rest.length := List.length_pos_iff.mpr fun h => hlast (by rw [h]; rfl)
        have hsecond := dmaPoolAlloc_of_isSome (htaken (k + 1) (by omega) (by rw [List.length_cons]; omega))
        have hsame := hlive.distinct k (k + 1) _ hfirst (heq ▸ hsecond)
        omega
    rw [freeSgl, if_neg hgo, hindex, hnext]
    by_cases hlast : rest.isEmpty = true
    · rw [List.isEmpty_iff] at hlast
      subst hlast
      rfl
    · rw [if_neg hlast, ih hrest fun j hlow hhigh => htaken j (by omega) (by rw [List.length_cons]; omega)]
      rw [List.length_cons, chainResources, List.reverse_cons, List.reverse_cons]
      simp only [Ledger.releaseAll, Ledger.release, List.append_assoc]
      rfl

/-! ### The pointers -/

theorem me6Ndma_next {a : BitVec 64} (ha : 4 ∣ a.toNat) (b : SglBlock) :
    me6Ndma { b with next := (a >>> 1) ||| 1 } = a := by
  have hread := readNext_pointer ha
  rw [readNext] at hread
  split at hread
  · exact Option.some.inj hread
  · cases hread

theorem me5Ndma_next {a : BitVec 64} (ha : 4 ∣ a.toNat) (b : Me5Sgl) : me5Ndma { b with next := a + 2 } =
    a := by
  obtain ⟨q, hq⟩ := ha
  have hsum : (a + 2).toNat = 2 ^ 2 * q + 2 := by bv_omega
  have hword : a.toNat = 2 ^ 2 * q + 0 := hq
  have hmask : ∀ j < 64, (~~~3#64).getLsbD j = decide (2 ≤ j) := by decide
  apply BitVec.eq_of_getLsbD_eq
  intro j hj
  rw [me5Ndma, BitVec.getLsbD_and, hmask j hj, BitVec.getLsbD, BitVec.getLsbD, hsum, hword,
    Nat.testBit_two_pow_mul_add _ (by decide), Nat.testBit_two_pow_mul_add _ (by decide)]
  by_cases hlow : j < 2
  · rw [if_pos hlow, if_pos hlow, decide_eq_false (by omega), Bool.and_false, Nat.zero_testBit]
  · rw [if_neg hlow, if_neg hlow, decide_eq_true (by omega), Bool.and_true]

theorem me6Ndma_zero {b : SglBlock} (h : b.next = 0) : me6Ndma b = 0 := by
  rw [me6Ndma, h]
  decide

theorem me5Ndma_zero {b : Me5Sgl} (h : b.next = 0) : me5Ndma b = 0 := by
  rw [me5Ndma, h]
  decide

/-! ### Building -/

/-- What a loop that goes on with the node `k` has made when it ends. -/
structure Built (ndma : β → BitVec 64) (pool : SglAllocator) (e : BitVec 64) (k : Nat)
    (l : Ledger SglResource)
    (chain : List (SglNode β)) (l' : Ledger SglResource) : Prop where
  chained : Chained ndma pool e k chain
  ne_nil : chain ≠ []
  taken : BlocksTaken pool (k + 1) (chain.length - 1)
  holds : ∀ held, l.Holds held → l'.Holds (chainResources pool (k + 1) (chain.length - 1) ++ held)
  released : ∀ r ∈ l'.released, r ∈ l.released ∨ ∃ j, r = .node j

theorem Built.last {node : SglNode β} (hnode : node.index = k) (hend : ndma node.sgl = e) :
    Built ndma pool e k l [node] l where
  chained := ⟨hnode, hend, trivial⟩
  ne_nil := List.cons_ne_nil _ _
  taken := fun _ hlow hhigh => absurd hhigh (Nat.not_lt.mpr hlow)
  holds := fun _ h => h
  released := fun _ h => .inl h

/-- The node that was taken for a block that is not there is given back. -/
theorem Built.undone {node : SglNode β} (hnode : node.index = k) (hend : ndma node.sgl = e) :
    Built ndma pool e k l [node] ((l.take (.node (k + 1))).release (.node (k + 1))) where
  chained := ⟨hnode, hend, trivial⟩
  ne_nil := List.cons_ne_nil _ _
  taken := fun _ hlow hhigh => absurd hhigh (Nat.not_lt.mpr hlow)
  holds := fun _ h => (h.take _).release
  released := by
    intro r hr
    rcases List.mem_cons.mp hr with rfl | hr
    · exact .inr ⟨k + 1, rfl⟩
    · exact .inl hr

/-- A node in front, when the block behind it was taken. -/
theorem Built.cons {node : SglNode β} {a : BitVec 64} {l' : Ledger SglResource} (hnode : node.index = k)
    (ha : pool.dmaPoolAlloc (k + 1) = some a) (hnext : ndma node.sgl = a)
    (h : Built ndma pool e (k + 1) ((l.take (.node (k + 1))).take (.block (k + 1) a)) chain l') :
    Built ndma pool e k l (node :: chain) l' := by
  have hdma : pool.dma (k + 1) = a := by rw [SglAllocator.dma, ha]; rfl
  have hempty : chain.isEmpty = false := by
    rw [Bool.eq_false_iff, ne_eq, List.isEmpty_iff]
    exact h.ne_nil
  obtain ⟨m, hm⟩ : ∃ m, chain.length = m + 1 := Nat.exists_eq_succ_of_ne_zero fun h0 =>
    h.ne_nil (List.length_eq_zero_iff.mp h0)
  refine ⟨⟨hnode, ?_, h.chained⟩, List.cons_ne_nil _ _, fun j hlow hhigh => ?_, fun held hheld =>
    ?_, h.released⟩
  · rw [hempty, hdma]
    exact hnext
  · rw [List.length_cons] at hhigh
    rcases Nat.lt_or_eq_of_le hlow with hlt | rfl
    · exact h.taken j hlt (by omega)
    · rw [ha]
      rfl
  · have hholds := h.holds _ ((hheld.take _).take _)
    rw [hm, Nat.add_sub_cancel] at hholds
    rw [List.length_cons, Nat.add_sub_cancel, hm, chainResources, hdma]
    exact hholds.perm (List.perm_middle.trans (List.perm_middle.cons _))

theorem me6SetSglEntry_next {b b' : SglBlock} {i : Nat} {addr : BitVec 64} {size : BitVec 32} {last : Bool}
    (h : me6SetSglEntry b i addr size last = some b') : b'.next = b.next := by
  unfold me6SetSglEntry at h
  split at h <;> cases h <;> rfl

theorem me6CreateUserbufLoop_built {dummy : BitVec 64} (hlive : LiveBlocks pool dummy) {payload : Nat}
    {segs : List DmaSegment} {node : SglNode SglBlock} {i remaining : Nat} (hnext : node.sgl.next = 0) :
    Built me6Ndma pool 0 node.index l (me6CreateUserbufLoop pool payload segs node i remaining l).2.1
      (me6CreateUserbufLoop pool payload segs node i remaining l).2.2 := by
  induction segs generalizing node i remaining l with
  | nil => exact .last rfl (me6Ndma_zero hnext)
  | cons sg rest ih =>
    rw [me6CreateUserbufLoop]
    simp only
    generalize (if sg.len > remaining then remaining else sg.len) = len
    generalize me6SglSize (sg.addr &&& 0xfff).toNat len payload = size
    rcases size with _ | size
    · exact .last rfl (me6Ndma_zero hnext)
    · simp only
      rcases hset : me6SetSglEntry node.sgl i sg.addr (BitVec.ofNat 32 size) rest.isEmpty with _ | sgl
      · exact .last rfl (me6Ndma_zero hnext)
      · have hzero : sgl.next = 0 := (me6SetSglEntry_next hset).trans hnext
        simp only
        by_cases hfull : i + 1 = ME6_SGL_ENTRIES ∧ ¬ rest.isEmpty = true
        · rw [if_pos hfull]
          by_cases hmem : pool.kzalloc (node.index + 1) = true
          · rw [if_pos hmem]
            rcases ha : pool.dmaPoolAlloc (node.index + 1) with _ | a
            · exact .undone rfl (me6Ndma_zero hzero)
            · have hrest := @ih ((l.take (.node (node.index + 1))).take (.block (node.index + 1) a))
                ⟨node.index + 1, {}⟩ 0 (remaining - len) rfl
              simp only
              exact .cons rfl ha (me6Ndma_next (hlive.word _ a ha) sgl) hrest
          · rw [if_neg hmem]
            exact .last rfl (me6Ndma_zero hzero)
        · rw [if_neg hfull]
          exact @ih l ⟨node.index, sgl⟩ (i + 1) (remaining - len) hzero

/-- The end of a list is the dummy buffer's next block, which is its own. -/
theorem me5CreateUserbufLoop_built {dummy dummypage : BitVec 64} (hlive : LiveBlocks pool dummy)
    {segs : List (BitVec 64)} {node : SglNode Me5Sgl} {i : Nat} (hnext : node.sgl.next = 0) :
    ∃ e, (e = 0 ∨ e = dummy) ∧
      Built me5Ndma pool e node.index l
        (me5CreateUserbufLoop pool (me5CreateDummybuf dummy dummypage) segs node i l).2.1
        (me5CreateUserbufLoop pool (me5CreateDummybuf dummy dummypage) segs node i l).2.2 := by
  induction segs generalizing node i l with
  | nil => exact ⟨dummy, .inr rfl, .last rfl (me5Ndma_next hlive.dummyWord _)⟩
  | cons addr rest ih =>
    rw [me5CreateUserbufLoop]
    simp only
    generalize Function.update node.sgl.addr (i % ME5_SGL_ADDRS) (addr + 1) = written
    by_cases hfull : i % ME5_SGL_ADDRS = ME5_SGL_ADDRS - 1 ∧ ¬ rest.isEmpty = true
    · rw [if_pos hfull]
      by_cases hmem : pool.kzalloc (node.index + 1) = true
      · rw [if_pos hmem]
        rcases ha : pool.dmaPoolAlloc (node.index + 1) with _ | a
        · exact ⟨0, .inl rfl, .undone rfl (me5Ndma_zero hnext)⟩
        · obtain ⟨e, hend, hrest⟩ := @ih ((l.take (.node (node.index + 1))).take (.block (node.index + 1) a))
            ⟨node.index + 1, {}⟩ (i + 1) rfl
          simp only
          exact ⟨e, hend, .cons rfl ha (me5Ndma_next (hlive.word _ a ha) ⟨written, 0⟩) hrest⟩
      · rw [if_neg hmem]
        exact ⟨0, .inl rfl, .last rfl (me5Ndma_zero hnext)⟩
    · rw [if_neg hfull]
      exact @ih l ⟨node.index, ⟨written, node.sgl.next⟩⟩ (i + 1) hnext

/-! ### The list is the one without the ledger -/

/-- A block is there when there was memory for its node, too. -/
def SglAllocator.blocks (pool : SglAllocator) (k : Nat) : Option (BitVec 64) :=
  if k = 0 ∨ pool.kzalloc k then pool.dmaPoolAlloc k else none

def SglNode.place (pool : SglAllocator) (node : SglNode SglBlock) :
    ChainNode := ⟨pool.dma node.index, node.sgl⟩

def loopResult (pool : SglAllocator) :
    Option SglFailure × List (SglNode SglBlock) × Ledger SglResource → Except SglFailure (List ChainNode)
  | (none, chain, _) => .ok (chain.map (·.place pool))
  | (some error, _, _) => .error error

theorem me6CreateUserbufLoop_result (pool : SglAllocator) (payload : Nat) (segs : List DmaSegment)
    (node : SglNode SglBlock) (i remaining : Nat) (l : Ledger SglResource) :
    loopResult pool (me6CreateUserbufLoop pool payload segs node i remaining l) =
      createUserbufLoop pool.blocks payload segs (node.place pool) i (node.index + 1) remaining := by
  induction segs generalizing node i remaining l with
  | nil => rfl
  | cons sg rest ih =>
    rw [me6CreateUserbufLoop, createUserbufLoop]
    simp only [SglNode.place]
    generalize (if sg.len > remaining then remaining else sg.len) = len
    generalize me6SglSize (sg.addr &&& 0xfff).toNat len payload = size
    rcases size with _ | size
    · rfl
    · simp only
      generalize me6SetSglEntry node.sgl i sg.addr (BitVec.ofNat 32 size) rest.isEmpty = block
      rcases block with _ | sgl
      · rfl
      · simp only
        by_cases hfull : i + 1 = ME6_SGL_ENTRIES ∧ ¬ rest.isEmpty = true
        · rw [if_pos hfull, if_pos hfull]
          by_cases hmem : pool.kzalloc (node.index + 1) = true
          · have hblocks : pool.blocks (node.index + 1) = pool.dmaPoolAlloc (node.index + 1) :=
              if_pos (.inr hmem)
            rw [if_pos hmem, hblocks]
            rcases ha : pool.dmaPoolAlloc (node.index + 1) with _ | a
            · rfl
            · have hdma : pool.dma (node.index + 1) = a := by rw [SglAllocator.dma, ha]; rfl
              have hrest := ih ⟨node.index + 1, {}⟩ 0 (remaining - len)
                ((l.take (.node (node.index + 1))).take (.block (node.index + 1) a))
              rw [SglNode.place, hdma] at hrest
              simp only at hrest ⊢
              rw [← hrest]
              generalize me6CreateUserbufLoop pool payload rest ⟨node.index + 1, {}⟩ 0 (remaining - len)
                ((l.take (.node (node.index + 1))).take (.block (node.index + 1) a)) = run
              obtain ⟨_ | error, chain, l'⟩ := run <;> rfl
          · have hblocks : pool.blocks (node.index + 1) = none :=
              if_neg fun h => h.elim (Nat.succ_ne_zero _) hmem
            rw [if_neg hmem, hblocks]
            rfl
        · rw [if_neg hfull, if_neg hfull]
          exact ih ⟨node.index, sgl⟩ (i + 1) (remaining - len) l

theorem me6CreateUserbufChain_result (pool : SglAllocator) (ctrl : BitVec 16) (bufLength : Nat)
    (segs : List DmaSegment) (l : Ledger SglResource) :
    (me6CreateUserbufChain pool ctrl bufLength segs l).1.map (fun sgl => sgl.chain.map (·.place pool)) =
      me6CreateUserbuf pool.blocks ctrl bufLength segs := by
  have hblocks : pool.blocks 0 = pool.dmaPoolAlloc 0 := if_pos (.inl rfl)
  rw [me6CreateUserbufChain, me6CreateUserbuf, hblocks]
  rcases ha : pool.dmaPoolAlloc 0 with _ | dma
  · rfl
  · have hdma : pool.dma 0 = dma := by rw [SglAllocator.dma, ha]; rfl
    have hloop := me6CreateUserbufLoop_result pool (payloadSize ctrl) segs ⟨0, {}⟩ 0 bufLength
      (l.take (.block 0 dma))
    rw [SglNode.place, hdma] at hloop
    simp only at hloop ⊢
    rw [← hloop]
    generalize me6CreateUserbufLoop pool (payloadSize ctrl) segs ⟨0, {}⟩ 0 bufLength
      (l.take (.block 0 dma)) = run
    obtain ⟨_ | _ | _, chain, l'⟩ := run <;> rfl

/-! ### Building and freeing -/

theorem mem_chainResources {r : SglResource} (h : r ∈ chainResources pool k n) :
    ∃ j, k ≤ j ∧ j < k + n ∧ (r = .block j (pool.dma j) ∨ r = .node j) := by
  induction n generalizing k with
  | zero => cases h
  | succ n ih =>
    rcases List.mem_cons.mp h with rfl | h
    · exact ⟨k, Nat.le_refl k, by omega, .inl rfl⟩
    · rcases List.mem_cons.mp h with rfl | h
      · exact ⟨k, Nat.le_refl k, by omega, .inr rfl⟩
      · obtain ⟨j, hlow, hhigh, hr⟩ := ih h
        exact ⟨j, by omega, by omega, hr⟩

/-- Everything but `others` was given back, and not the block of the dummy buffer. -/
def AllFreed (dummy : BitVec 64) (others : List SglResource) (l : Ledger SglResource) : Prop :=
  l.Holds others ∧ ∀ k, .block k dummy ∉ l.released

/-- After an error all is given back, and after a success with the list. An assertion that fails
halts the kernel. -/
def FreedOnce {β : Type} (free : List (SglNode β) → BitVec 64 → Ledger SglResource → Ledger SglResource)
    (dummy : BitVec 64) (others : List SglResource) :
    Except SglFailure (UserSgl β) × Ledger SglResource → Prop
  | (.ok sgl, l) => AllFreed dummy others (free sgl.chain sgl.dma l)
  | (.error .noMem, l) => AllFreed dummy others l
  | (.error .bug, _) => True

theorem Built.allFreed {dummy dma : BitVec 64} {others : List SglResource} {l' : Ledger SglResource}
    (hlive : LiveBlocks pool dummy) (ha : pool.dmaPoolAlloc 0 = some dma) (hend : e = 0 ∨ e = dummy)
    (h : Built ndma pool e 0 (Ledger.take { taken := .node 0 :: others } (.block 0 dma)) chain l') :
    AllFreed dummy others (freeSgl ndma chain dma l') := by
  have hdma : pool.dma 0 = dma := by rw [SglAllocator.dma, ha]; rfl
  obtain ⟨m, hm⟩ : ∃ m, chain.length = m + 1 := Nat.exists_eq_succ_of_ne_zero fun h0 =>
    h.ne_nil (List.length_eq_zero_iff.mp h0)
  have htaken : BlocksTaken pool 0 chain.length := by
    intro j _ hhigh
    rcases Nat.eq_zero_or_pos j with rfl | hpos
    · rw [ha]
      rfl
    · exact h.taken j hpos (by omega)
  have hfree := freeSgl_eq (l := l') hlive hend h.chained htaken
  rw [hdma] at hfree
  rw [hfree]
  constructor
  · have hstart : Ledger.Holds { taken := .node 0 :: others } (.node 0 :: others) := .refl _
    have hholds := h.holds _ (hstart.take (.block 0 dma))
    rw [hm, Nat.add_sub_cancel] at hholds
    rw [Ledger.holds_releaseAll, hm, chainResources, hdma]
    apply hholds.perm
    exact (List.perm_middle.trans (List.perm_middle.cons _)).trans
      ((List.reverse_perm (_ :: _ :: _)).symm.append_right others)
  · intro j hj
    rcases List.mem_append.mp hj with hj | hj
    · obtain ⟨j', _, hhigh, hblock | hnode⟩ := mem_chainResources (List.mem_reverse.mp hj)
      · cases hblock
        exact hlive.notDummy _ (dmaPoolAlloc_of_isSome (htaken _ (Nat.zero_le _) (by omega)))
      · cases hnode
    · rcases h.released _ hj with hold | ⟨j', hnode⟩
      · cases hold
      · cases hnode

/-- The caller's node is given back when there is no first block. -/
theorem allFreed_first (dummy : BitVec 64) (others : List SglResource) :
    AllFreed dummy others (Ledger.release { taken := .node 0 :: others } (.node 0)) :=
  ⟨.refl _, fun k hk => by cases hk with | tail _ hk => cases hk⟩

theorem me6CreateUserbufChain_freedOnce {dummy : BitVec 64} (hlive : LiveBlocks pool dummy) (ctrl : BitVec 16)
    (bufLength : Nat) (segs : List DmaSegment) (others : List SglResource) :
    FreedOnce me6FreeSgl dummy others
      (me6CreateUserbufChain pool ctrl bufLength segs { taken := .node 0 :: others }) := by
  rw [me6CreateUserbufChain]
  rcases ha : pool.dmaPoolAlloc 0 with _ | dma
  · exact allFreed_first dummy others
  · simp only
    generalize hrun : me6CreateUserbufLoop pool (payloadSize ctrl) segs ⟨0, {}⟩ 0 bufLength
      (Ledger.take { taken := .node 0 :: others } (.block 0 dma)) = run
    have hbuilt : Built me6Ndma pool 0 0 (Ledger.take { taken := .node 0 :: others } (.block 0 dma)) run.2.1
        run.2.2 := by
      rw [← hrun]
      exact @me6CreateUserbufLoop_built pool _ _ hlive _ _ ⟨0, {}⟩ _ _ rfl
    obtain ⟨_ | error, chain, l'⟩ := run
    · exact hbuilt.allFreed hlive ha (.inl rfl)
    · cases error with
      | bug => trivial
      | noMem => exact hbuilt.allFreed hlive ha (.inl rfl)

theorem me5CreateUserbuf_freedOnce {dummy : BitVec 64} (hlive : LiveBlocks pool dummy) (dummypage : BitVec 64)
    (segs : List (BitVec 64)) (others : List SglResource) :
    FreedOnce me5FreeSgl dummy others
      (me5CreateUserbuf pool (me5CreateDummybuf dummy dummypage) segs { taken := .node 0 :: others }) := by
  rw [me5CreateUserbuf]
  rcases ha : pool.dmaPoolAlloc 0 with _ | dma
  · exact allFreed_first dummy others
  · simp only
    generalize hrun : me5CreateUserbufLoop pool (me5CreateDummybuf dummy dummypage) segs ⟨0, {}⟩ 0
      (Ledger.take { taken := .node 0 :: others } (.block 0 dma)) = run
    have hlist : ∃ e, (e = 0 ∨ e = dummy) ∧ Built me5Ndma pool e 0
        (Ledger.take { taken := .node 0 :: others } (.block 0 dma)) run.2.1 run.2.2 := by
      rw [← hrun]
      exact @me5CreateUserbufLoop_built pool _ _ _ hlive _ ⟨0, {}⟩ _ rfl
    obtain ⟨e, hend, hbuilt⟩ := hlist
    obtain ⟨_ | error, chain, l'⟩ := run
    · exact hbuilt.allFreed hlive ha hend
    · cases error with
      | bug => trivial
      | noMem => exact hbuilt.allFreed hlive ha hend

/-- Both boards, for every list of segments and every failure of an allocation. -/
theorem sgl_freed_once (pool : SglAllocator) (dummy dummypage : BitVec 64) (hlive : LiveBlocks pool dummy)
    (ctrl : BitVec 16) (bufLength : Nat) (segs : List DmaSegment) (addrs : List (BitVec 64))
    (others : List SglResource) :
    FreedOnce me6FreeSgl dummy others
        (me6CreateUserbufChain pool ctrl bufLength segs { taken := .node 0 :: others }) ∧
      FreedOnce me5FreeSgl dummy others
        (me5CreateUserbuf pool (me5CreateDummybuf dummy dummypage) addrs { taken := .node 0 :: others }) :=
  ⟨me6CreateUserbufChain_freedOnce hlive ctrl bufLength segs others,
    me5CreateUserbuf_freedOnce hlive dummypage addrs others⟩

/-- Two blocks, and no memory for a third one. -/
def twoBlocks : SglAllocator where
  kzalloc := fun _ => true
  dmaPoolAlloc := fun
    | 0 => some 0x1000
    | 1 => some 0x2000
    | _ => none

theorem twoBlocks_live : LiveBlocks twoBlocks 0x8000 where
  nonzero := by rintro (_ | _ | k) a h <;> cases h <;> decide
  word := by rintro (_ | _ | k) a h <;> cases h <;> decide
  distinct := by
    intro j k a hj hk
    have heq := hj.trans hk.symm
    rcases j with _ | _ | j <;> rcases k with _ | _ | k <;>
      first | rfl | exact absurd heq (by decide) | (cases hj; done) | cases hk
  notDummy := by rintro (_ | _ | k) <;> simp [twoBlocks]
  dummyWord := by decide

theorem sgl_freed_once_two :
    FreedOnce me6FreeSgl 0x8000 [.block 9 0x8000]
      (me6CreateUserbufChain twoBlocks 0 0x7000 ((List.range 7).map fun i => ⟨BitVec.ofNat 64 i <<< 16, 0x1000⟩)
        { taken := [.node 0, .block 9 0x8000] }) :=
  (sgl_freed_once twoBlocks 0x8000 0x9000 twoBlocks_live 0 0x7000
    ((List.range 7).map fun i => ⟨BitVec.ofNat 64 i <<< 16, 0x1000⟩) [] [.block 9 0x8000]).1

end MenableDriver
