import MenableDriver.Sgl.Entry
import MenableDriver.Sgl.GroupSize

/-!
# Chains of blocks

The device reads the entries of a block up to the one with the last flag, and goes on in the
next block when none of the five has it. `pack` puts a list of page groups into blocks, five
in each. Both list builders do it in their own way.
-/

namespace MenableDriver

set_option autoImplicit false

open BitField (Words bit put get)

structure PageGroup where
  addr : BitVec 64
  size : BitVec 32
  last : Bool

/-- A piece of memory on the bus. -/
structure DmaSegment where
  addr : BitVec 64
  len : Nat
deriving DecidableEq

/-- A block and its bus address. -/
structure ChainNode where
  addr : BitVec 64
  block : SglBlock

def nextPointer (nextBlockAddress : BitVec 64) : BitVec 64 := (nextBlockAddress >>> 1) ||| 1

/-! ### Reading -/

def readEntry (d : Words) (entryIdx : Nat) : PageGroup where
  addr := (get d (entryStart entryIdx + 1) 62).setWidth 64 <<< 2
  size := (get d (entryStart entryIdx + 63) 23).setWidth 32
  last := bit d (entryStart entryIdx)

def readEntries (d : Words) : Nat → Nat → List PageGroup
  | 0, _ => []
  | rounds + 1, i => readEntry d i :: if (readEntry d i).last then [] else readEntries d rounds (i + 1)

def SglBlock.entries (b : SglBlock) : List PageGroup := readEntries b.data SGL_ENTRIES_PER_BLOCK 0

/-- Without the bit 0 there is no next block. -/
def readNext (next : BitVec 64) : Option (BitVec 64) :=
  if next.getLsbD 0 then some ((next <<< 1) &&& ~~~3#64) else none

/-- `none` when the device leaves the chain. -/
def readChain : List ChainNode → Option (List PageGroup)
  | [] => none
  | node :: nodes =>
    if node.block.entries.any (·.last) then some node.block.entries
    else if readNext node.block.next = nodes.head?.map (·.addr) then
      (readChain nodes).map (node.block.entries ++ ·)
    else none

/-- The memory that the device moves for a group. -/
def decodeGroup (payload : Nat) (g : PageGroup) : DmaSegment :=
  ⟨g.addr, decodedLength g.addr.toNat g.size.toNat payload⟩

/-! ### Packing -/

/-- One group for each segment. -/
def groupsOf (size : DmaSegment → Nat) : List DmaSegment → List PageGroup
  | [] => []
  | sg :: rest => ⟨sg.addr, BitVec.ofNat 32 (size sg), rest.isEmpty⟩ :: groupsOf size rest

def putGroup (b : SglBlock) (i : Nat) (g : PageGroup) : SglBlock :=
  { b with data := putEntry b.data i g.addr g.size g.last }

/-- From the block `k` and its entry `i` on. -/
def pack (pool : Nat → BitVec 64) : List PageGroup → Nat → SglBlock → Nat → List ChainNode
  | [], k, b, _ => [⟨pool k, b⟩]
  | g :: gs, k, b, i =>
    if i + 1 = SGL_ENTRIES_PER_BLOCK ∧ gs ≠ [] then
      ⟨pool k, { putGroup b i g with next := nextPointer (pool (k + 1)) }⟩ :: pack pool gs (k + 1) {} 0
    else pack pool gs k (putGroup b i g) (i + 1)

/-- What an entry can hold. -/
structure PageGroup.Encodable (g : PageGroup) : Prop where
  addr : 4 ∣ g.addr.toNat
  size : g.size.toNat < 2 ^ 23

/-- The last flag is set on the final group and on no other. -/
def LastOnly : List PageGroup → Prop
  | [] => True
  | g :: gs => g.last = gs.isEmpty ∧ LastOnly gs

/-- Every block is full but the final one, which is not empty; each is linked to the next. -/
inductive Packed : List ChainNode → List PageGroup → Prop
  | last {node : ChainNode} : node.block.next = 0 → node.block.entries ≠ [] →
      node.block.entries.length ≤ SGL_ENTRIES_PER_BLOCK → Packed [node] node.block.entries
  | full {node next : ChainNode} {nodes : List ChainNode} {gs : List PageGroup} :
      node.block.next = nextPointer next.addr → node.block.entries.length = SGL_ENTRIES_PER_BLOCK →
      Packed (next :: nodes) gs → Packed (node :: next :: nodes) (node.block.entries ++ gs)

variable {d : Words} {b : SglBlock} {g : PageGroup} {gs : List PageGroup} {pool : Nat → BitVec 64}

/-! ### The groups of the segments -/

variable {size : DmaSegment → Nat} {segs : List DmaSegment}

theorem groupsOf_isEmpty (size : DmaSegment → Nat) (segs : List DmaSegment) :
    (groupsOf size segs).isEmpty = segs.isEmpty := by
  cases segs <;> rfl

theorem groupsOf_ne_nil (hne : segs ≠ []) : groupsOf size segs ≠ [] := by
  rwa [ne_eq, ← List.isEmpty_iff, groupsOf_isEmpty, List.isEmpty_iff]

theorem groupsOf_lastOnly (size : DmaSegment → Nat) (segs : List DmaSegment) :
    LastOnly (groupsOf size segs) := by
  induction segs with
  | nil => trivial
  | cons sg rest ih => exact ⟨(groupsOf_isEmpty size rest).symm, ih⟩

theorem groupsOf_length (size : DmaSegment → Nat) (segs : List DmaSegment) :
    (groupsOf size segs).length = segs.length := by
  induction segs with
  | nil => rfl
  | cons sg rest ih => rw [groupsOf, List.length_cons, ih, List.length_cons]

theorem groupsOf_encodable (haddr : ∀ sg ∈ segs, 4 ∣ sg.addr.toNat) (hsize : ∀ sg, size sg < 2 ^ 23) :
    ∀ g ∈ groupsOf size segs, g.Encodable := by
  induction segs with
  | nil =>
    intro g hg
    exact absurd hg List.not_mem_nil
  | cons sg rest ih =>
    intro g hg
    rcases List.mem_cons.mp hg with rfl | hrest
    · have hlt := hsize sg
      refine ⟨haddr sg List.mem_cons_self, ?_⟩
      rwa [BitVec.toNat_ofNat, Nat.mod_eq_of_lt (by omega)]
    · exact ih (fun sg' h => haddr sg' (List.mem_cons_of_mem _ h)) g hrest

theorem groupsOf_decode (payload : Nat) (hsize : ∀ sg, size sg < 2 ^ 23) (segs : List DmaSegment) :
    (groupsOf size segs).map (decodeGroup payload) =
      segs.map fun sg => ⟨sg.addr, decodedLength sg.addr.toNat (size sg) payload⟩ := by
  induction segs with
  | nil => rfl
  | cons sg rest ih =>
    have hlt := hsize sg
    rw [groupsOf, List.map_cons, List.map_cons, ih, decodeGroup, BitVec.toNat_ofNat,
      Nat.mod_eq_of_lt (by omega)]

/-! ### One entry -/

theorem word_address {a : BitVec 64} (h : 4 ∣ a.toNat) : ((a >>> 2).setWidth 62).setWidth 64 <<< 2 = a := by
  have hlt := a.isLt
  have hdiv : a.toNat >>> 2 = a.toNat / 4 := Nat.shiftRight_eq_div_pow _ 2
  apply BitVec.eq_of_toNat_eq
  simp only [BitVec.toNat_shiftLeft, BitVec.toNat_setWidth, BitVec.toNat_ushiftRight, hdiv, Nat.shiftLeft_eq]
  omega

theorem readEntry_put (d : Words) (i : Nat) (hg : g.Encodable) :
    readEntry (putEntry d i g.addr g.size g.last) i = g := by
  have haddr : get (putEntry d i g.addr g.size g.last) (entryStart i + 1) 62 =
      (g.addr >>> 2).setWidth 62 := by
    rw [putEntry, BitField.get_put_disjoint _ (by omega), BitField.get_put_self]
  have hsize : (get (putEntry d i g.addr g.size g.last) (entryStart i + 63) 23).setWidth 32 = g.size := by
    have hlt := hg.size
    rw [putEntry, BitField.get_put_self]
    apply BitVec.eq_of_toNat_eq
    simp only [BitVec.toNat_setWidth]
    omega
  have hlast : bit (putEntry d i g.addr g.size g.last) (entryStart i) = g.last := by
    rw [putEntry_bit, if_pos rfl]
  rw [readEntry, haddr, hsize, hlast, word_address hg.addr]

theorem readEntry_put_other {i j : Nat} (hij : i ≠ j) (g : PageGroup) :
    readEntry (putEntry d i g.addr g.size g.last) j = readEntry d j := by
  have hbit : ∀ k, entryStart j ≤ k → k < entryStart j + 86 →
      bit (putEntry d i g.addr g.size g.last) k = bit d k := by
    intro k hlow hhigh
    unfold entryStart at hlow hhigh
    rw [putEntry_bit, entryStart, if_neg (by omega), if_neg (by omega), if_neg (by omega)]
  have haddr : get (putEntry d i g.addr g.size g.last) (entryStart j + 1) 62 = get d (entryStart j + 1) 62 :=
    BitField.get_congr fun k hk => hbit _ (by omega) (by omega)
  have hsize : get (putEntry d i g.addr g.size g.last) (entryStart j + 63) 23 =
      get d (entryStart j + 63) 23 :=
    BitField.get_congr fun k hk => hbit _ (by omega) (by omega)
  rw [readEntry, haddr, hsize, hbit _ (Nat.le_refl _) (by omega), readEntry]

/-! ### One block -/

/-- The entries of a block that is being filled. -/
structure Filled (b : SglBlock) (done : List PageGroup) : Prop where
  next : b.next = 0
  reserved : ReservedClear b.data
  read : ∀ j (hj : j < done.length), readEntry b.data j = done[j]
  notLast : ∀ g ∈ done, g.last = false

theorem filled_empty : Filled {} [] where
  next := rfl
  reserved := fun _ _ => BitVec.getLsbD_zero
  read := fun _ hj => absurd hj (Nat.not_lt_zero _)
  notLast := fun _ hg => absurd hg List.not_mem_nil

variable {done : List PageGroup}

theorem Filled.read_put (h : Filled b done) (hg : g.Encodable) :
    ∀ j (hj : j < (done ++ [g]).length), readEntry (putGroup b done.length g).data j = (done ++ [g])[j] := by
  intro j hj
  by_cases hlt : j < done.length
  · rw [putGroup, readEntry_put_other (by omega), h.read j hlt, List.getElem_append_left hlt]
  · have heq : j = done.length := by
      rw [List.length_append, List.length_singleton] at hj
      omega
    subst heq
    rw [putGroup, readEntry_put _ _ hg, List.getElem_concat_length rfl]

theorem putGroup_reserved (h : ReservedClear b.data) (i : Nat) (g : PageGroup) :
    ReservedClear (putGroup b i g).data := by
  intro k hk
  rw [putGroup, putEntry_bit, entryStart, if_neg (by omega), if_neg (by omega), if_neg (by omega), h k hk]

theorem Filled.put (h : Filled b done) (hg : g.Encodable) (hl : g.last = false) :
    Filled (putGroup b done.length g) (done ++ [g]) where
  next := h.next
  reserved := putGroup_reserved h.reserved _ g
  read := h.read_put hg
  notLast := by
    intro g' hg'
    rcases List.mem_append.mp hg' with hold | hnew
    · exact h.notLast g' hold
    · rw [List.mem_singleton.mp hnew, hl]

theorem readEntries_append {r i : Nat} (h : ∀ j (hj : j < done.length), readEntry d (i + j) = done[j])
    (hl : ∀ g ∈ done, g.last = false) :
    readEntries d (done.length + r) i = done ++ readEntries d r (i + done.length) := by
  induction done generalizing i with
  | nil => rw [List.length_nil, Nat.zero_add, Nat.add_zero, List.nil_append]
  | cons g done ih =>
    have hhead : readEntry d i = g := h 0 (Nat.succ_pos _)
    have htail : ∀ j (hj : j < done.length), readEntry d (i + 1 + j) = done[j] := by
      intro j hj
      have hsucc := h (j + 1) (Nat.succ_lt_succ hj)
      rwa [List.getElem_cons_succ, ← Nat.add_assoc, Nat.add_right_comm] at hsucc
    have hflag : g.last = false := hl g List.mem_cons_self
    rw [List.length_cons, Nat.add_right_comm, readEntries, hhead, hflag, if_neg Bool.false_ne_true,
      ih htail fun g' hg' => hl g' (List.mem_cons_of_mem _ hg'), List.cons_append, Nat.add_assoc i,
        Nat.add_comm 1]

/-- A full block is read to its end. -/
theorem Filled.entries_full (h : Filled b done) (h5 : done.length = SGL_ENTRIES_PER_BLOCK) :
    b.entries = done := by
  have hread := readEntries_append (r := 0) (i := 0) (fun j hj => by rw [Nat.zero_add]; exact h.read j hj)
    h.notLast
  rw [Nat.add_zero, h5] at hread
  rw [SglBlock.entries, hread, readEntries, List.append_nil]

/-- The last flag ends the block. -/
theorem Filled.entries_last (h : Filled b done) (h5 : done.length < SGL_ENTRIES_PER_BLOCK) (hg : g.Encodable)
    (hl : g.last = true) : (putGroup b done.length g).entries = done ++ [g] := by
  obtain ⟨r, hr⟩ : ∃ r, SGL_ENTRIES_PER_BLOCK = done.length + (r + 1) :=
    ⟨SGL_ENTRIES_PER_BLOCK - done.length - 1, by omega⟩
  have hold : ∀ j (hj : j < done.length), readEntry (putGroup b done.length g).data (0 + j) = done[j] := by
    intro j hj
    rw [Nat.zero_add, putGroup, readEntry_put_other (by omega), h.read j hj]
  rw [SglBlock.entries, hr, readEntries_append hold h.notLast, Nat.zero_add, readEntries, putGroup,
    readEntry_put _ _ hg, hl, if_pos rfl]

/-! ### The chain -/

theorem pack_head (pool : Nat → BitVec 64) (gs : List PageGroup) (k : Nat) (b : SglBlock) (i : Nat) :
    ∃ node nodes, pack pool gs k b i = node :: nodes ∧ node.addr = pool k := by
  induction gs generalizing b i with
  | nil => exact ⟨_, _, rfl, rfl⟩
  | cons g gs ih =>
    rw [pack]
    split
    · exact ⟨_, _, rfl, rfl⟩
    · exact ih _ _

theorem pack_addr {k i : Nat} {node : ChainNode} (h : node ∈ pack pool gs k b i) :
    ∃ j, node.addr = pool j := by
  induction gs generalizing k b i with
  | nil => exact ⟨k, by rw [List.mem_singleton.mp h]⟩
  | cons g gs ih =>
    rw [pack] at h
    split at h
    · rcases List.mem_cons.mp h with rfl | hrest
      · exact ⟨k, rfl⟩
      · exact ih hrest
    · exact ih h

/-- The invariant is the block in work: it holds the groups since the last full one. -/
theorem pack_packed {k : Nat} (h : Filled b done) (h5 : done.length < SGL_ENTRIES_PER_BLOCK)
    (henc : ∀ g ∈ gs, g.Encodable) (hlast : LastOnly gs) (hne : gs ≠ []) :
    Packed (pack pool gs k b done.length) (done ++ gs) := by
  induction gs generalizing k b done with
  | nil => exact absurd rfl hne
  | cons g gs ih =>
    obtain ⟨hflag, hrest⟩ := hlast
    have hg := henc g List.mem_cons_self
    have hgs : ∀ g' ∈ gs, g'.Encodable := fun g' hg' => henc g' (List.mem_cons_of_mem _ hg')
    by_cases hend : gs = []
    · subst hend
      have hentries := h.entries_last h5 hg hflag
      rw [pack, if_neg (fun h => h.2 rfl), pack, ← hentries]
      refine .last h.next ?_ ?_
      · rw [hentries]
        exact List.append_ne_nil_of_right_ne_nil _ (List.cons_ne_nil _ _)
      · rw [hentries, List.length_append]
        exact h5
    · have hmore : g.last = false := by rw [hflag, List.isEmpty_eq_false_iff]; exact hend
      have hput := h.put hg hmore
      have hlength : (done ++ [g]).length = done.length + 1 := by rw [List.length_append,
        List.length_singleton]
      have hsplit : done ++ g :: gs = (done ++ [g]) ++ gs := List.append_cons ..
      rw [pack, hsplit]
      by_cases hfull : done.length + 1 = SGL_ENTRIES_PER_BLOCK
      · rw [if_pos ⟨hfull, hend⟩]
        have hentries := hput.entries_full (hlength.trans hfull)
        have htail := ih (k := k + 1) filled_empty (by decide) hgs hrest hend
        obtain ⟨node, nodes, heq, haddr⟩ := pack_head pool gs (k + 1) {} 0
        rw [List.length_nil, heq, List.nil_append] at htail
        rw [heq, ← hentries]
        refine .full (by rw [haddr]) ?_ htail
        exact (congrArg List.length hentries).trans (hlength.trans hfull)
      · rw [if_neg (fun h => hfull h.1), ← hlength]
        exact ih hput (by omega) hgs hrest hend

/-! ### The device reads what was packed -/

theorem readNext_pointer {a : BitVec 64} (h : 4 ∣ a.toNat) : readNext (nextPointer a) = some a := by
  have hlow : ∀ j < 2, a.getLsbD j = false := by
    intro j hj
    have hdiv : a.toNat / 2 ^ j % 2 = 0 := by
      rcases (by omega : j = 0 ∨ j = 1) with rfl | rfl <;> omega
    rw [BitVec.getLsbD, Nat.testBit_eq_decide_div_mod_eq, hdiv]
    rfl
  have hvalid : (nextPointer a).getLsbD 0 = true := by
    rw [nextPointer, BitVec.getLsbD_or]
    exact Bool.or_true _
  have hthree : ∀ j < 64, (3#64).getLsbD j = decide (j < 2) := by decide
  have hone : ∀ j < 64, (1 : BitVec 64).getLsbD j = decide (j = 0) := by decide
  have haddr : (nextPointer a <<< 1) &&& ~~~3#64 = a := by
    apply BitVec.eq_of_getLsbD_eq
    intro j hj
    rw [BitVec.getLsbD_and, BitVec.getLsbD_not, hthree j hj, BitVec.getLsbD_shiftLeft]
    by_cases h2 : j < 2
    · simp [h2, hlow j h2]
    · rw [nextPointer, BitVec.getLsbD_or, BitVec.getLsbD_ushiftRight, hone _ (by omega)]
      have hpos : ¬ j < 1 := by omega
      have hsub : 1 + (j - 1) = j := by omega
      have hne : ¬ j - 1 = 0 := by omega
      simp [h2, hpos, hsub, hne, hj]
  rw [readNext, if_pos hvalid, haddr]

theorem LastOnly.append {xs ys : List PageGroup} (h : LastOnly (xs ++ ys)) :
    LastOnly ys ∧ (ys ≠ [] → ∀ g ∈ xs, g.last = false) := by
  induction xs with
  | nil => exact ⟨h, fun _ _ hg => absurd hg List.not_mem_nil⟩
  | cons x xs ih =>
    obtain ⟨hx, hxs⟩ := h
    obtain ⟨hys, hnot⟩ := ih hxs
    refine ⟨hys, fun hne g hg => ?_⟩
    rcases List.mem_cons.mp hg with rfl | hmem
    · rw [hx, List.isEmpty_eq_false_iff]
      exact List.append_ne_nil_of_right_ne_nil _ hne
    · exact hnot hne g hmem

theorem LastOnly.any (h : LastOnly gs) (hne : gs ≠ []) : gs.any (·.last) = true := by
  induction gs with
  | nil => exact absurd rfl hne
  | cons g gs ih =>
    rw [List.any_cons, h.1]
    by_cases hend : gs = []
    · rw [hend]
      rfl
    · rw [ih h.2 hend, Bool.or_true]

theorem Packed.ne_nil {nodes : List ChainNode} (h : Packed nodes gs) : gs ≠ [] := by
  cases h with
  | last _ hne _ => exact hne
  | full _ h5 _ =>
    intro hnil
    rw [(List.append_eq_nil_iff.mp hnil).1] at h5
    cases h5

theorem Packed.read {nodes : List ChainNode} (h : Packed nodes gs) (hlast : LastOnly gs)
    (haddr : ∀ node ∈ nodes, 4 ∣ node.addr.toNat) : readChain nodes = some gs := by
  induction h with
  | last _ hne _ => rw [readChain, if_pos (hlast.any hne)]
  | @full node next nodes gs hnext _ hrest ih =>
    obtain ⟨hgs, hnot⟩ := hlast.append
    have hnone : ¬ node.block.entries.any (·.last) = true := by
      rw [List.any_eq_true]
      rintro ⟨g, hg, hflag⟩
      rw [hnot hrest.ne_nil g hg] at hflag
      cases hflag
    have hlink : readNext node.block.next = (next :: nodes).head?.map (·.addr) := by
      rw [hnext, readNext_pointer (haddr next (by simp))]
      rfl
    rw [readChain, if_neg hnone, if_pos hlink, ih hgs fun n hn => haddr n (List.mem_cons_of_mem _ hn)]
    rfl

/-- As few blocks as there can be. -/
theorem Packed.length {nodes : List ChainNode} (h : Packed nodes gs) :
    nodes.length = (gs.length + SGL_ENTRIES_PER_BLOCK - 1) / SGL_ENTRIES_PER_BLOCK := by
  unfold SGL_ENTRIES_PER_BLOCK
  induction h with
  | @last node _ hne h5 =>
    have hpos := List.length_pos_iff.mpr hne
    unfold SGL_ENTRIES_PER_BLOCK at h5
    rw [List.length_singleton]
    omega
  | @full node next nodes gs _ h5 _ ih =>
    unfold SGL_ENTRIES_PER_BLOCK at h5
    rw [List.length_cons, List.length_append, ih]
    omega

theorem Packed.blocks_ne_nil {nodes : List ChainNode} (h : Packed nodes gs) :
    ∀ node ∈ nodes, node.block.entries ≠ [] := by
  intro node hnode
  induction h with
  | last _ hne _ => rwa [List.mem_singleton.mp hnode]
  | full _ h5 _ ih =>
    rcases List.mem_cons.mp hnode with rfl | hrest
    · intro hnil
      rw [hnil] at h5
      cases h5
    · exact ih hrest

theorem Packed.linked {nodes : List ChainNode} (h : Packed nodes gs) :
    nodes.IsChain fun node next => node.block.next = nextPointer next.addr := by
  induction h with
  | last _ _ _ => exact .singleton _
  | full hnext _ _ ih => exact .cons_cons hnext ih

end MenableDriver
