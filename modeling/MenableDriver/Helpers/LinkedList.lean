import Mathlib.Algebra.Order.Ring.Int
import Mathlib.Data.List.Nodup
import MenableDriver.Data.Linked

/-!
# The linked list

`linked_list.c`: a list that keeps its first and its last entry and counts its entries. An entry
has one link only, to the next one, and it is the caller who sees to it that an entry is in
one list at a time.
-/

namespace MenableDriver

set_option autoImplicit false

open Linked (Path visit before)

/-- The private members with the size. -/
structure MenList (ν : Type) where
  size : BitVec 32 := 0
  head : Option ν := none
  tail : Option ν := none

/-- The `next` of every entry, whatever list it is in. -/
abbrev ListEntries (ν : Type) := ν → Option ν

inductive ListOp (ν : Type)
  | pushFront (entry : ν)
  | pushBack (entry : ν)
  | popFront
  | popBack
  | peekFront
  | peekBack
  | foreach

inductive ListResult (ν : Type)
  | done
  | entry (e : Option ν)
  | visited (es : List ν)

variable {ν : Type} [DecidableEq ν]

/-! ### The operations; `none` is a fault or a loop without an end -/

def menListInit : MenList ν := {}

def menListPushFront (next : ListEntries ν) (self : MenList ν) (entry : ν) : ListEntries ν × MenList ν :=
  (Function.update next entry self.head,
    { head := some entry
      tail := if self.tail = none then some entry else self.tail
      size := self.size + 1 })

def menListPushBack (next : ListEntries ν) (self : MenList ν) (entry : ν) :
    Option (ListEntries ν × MenList ν) :=
  let next := Function.update next entry none
  if self.head = none then
    some (next, { head := some entry, tail := some entry, size := self.size + 1 })
  else
    match self.tail with
    | none => none
    | some tail =>
      some (Function.update next tail (some entry), { self with tail := some entry, size := self.size + 1 })

def menListPopFront (next : ListEntries ν) (self : MenList ν) :
    Option (Option ν × ListEntries ν × MenList ν) :=
  if 0 < self.size then
    match self.head with
    | none => none
    | some entry =>
      some (some entry, Function.update next entry none,
        { head := next entry
          tail := if self.tail = some entry then none else self.tail
          size := self.size - 1 })
  else some (none, next, self)

/-- The loop looks for the last entry before the tail, and at as many entries as there are. -/
def menListPopBack (next : ListEntries ν) (self : MenList ν) :
    Option (Option ν × ListEntries ν × MenList ν) :=
  if self.size = 1 then some (self.head, next, {})
  else if 1 < self.size then
    match before next self.tail self.size.toNat self.head with
    | none => none
    | some entry =>
      some (next entry, Function.update next entry none,
        { self with tail := some entry, size := self.size - 1 })
  else some (none, next, self)

/-- `MEN_LIST_FOREACH`, with the entries that its body is run for. -/
def menListForeach (next : ListEntries ν) (self : MenList ν) : Option (List ν) :=
  visit next self.size.toNat self.head

def MenList.call (next : ListEntries ν) (self : MenList ν) :
    ListOp ν → Option (ListResult ν × ListEntries ν × MenList ν)
  | .pushFront entry => some (.done, menListPushFront next self entry)
  | .pushBack entry => (menListPushBack next self entry).map fun r => (.done, r)
  | .popFront => (menListPopFront next self).map fun r => (.entry r.1, r.2)
  | .popBack => (menListPopBack next self).map fun r => (.entry r.1, r.2)
  | .peekFront => some (.entry self.head, next, self)
  | .peekBack => some (.entry self.tail, next, self)
  | .foreach => (menListForeach next self).map fun es => (.visited es, next, self)

/-! ### The sequence that a list stands for -/

def sequenceCall (xs : List ν) : ListOp ν → ListResult ν × List ν
  | .pushFront entry => (.done, entry :: xs)
  | .pushBack entry => (.done, xs ++ [entry])
  | .popFront => (.entry xs.head?, xs.tail)
  | .popBack => (.entry xs.getLast?, xs.dropLast)
  | .peekFront => (.entry xs.head?, xs)
  | .peekBack => (.entry xs.getLast?, xs)
  | .foreach => (.visited xs, xs)

/-- The list holds the entries `xs` in this order. -/
structure MenList.Stores (next : ListEntries ν) (l : MenList ν) (xs : List ν) : Prop where
  size : l.size = BitVec.ofNat 32 xs.length
  head : l.head = xs.head?
  tail : l.tail = xs.getLast?
  path : Path next xs none
  nodup : xs.Nodup

def ListOp.pushed : ListOp ν → Option ν
  | .pushFront entry => some entry
  | .pushBack entry => some entry
  | _ => none

/-- What an operation that is called on `xs` does to the entries. -/
structure CallSpec (next : ListEntries ν) (l : MenList ν) (xs : List ν) (op : ListOp ν)
    (next' : ListEntries ν) (l' : MenList ν) : Prop where
  returns : l.call next op = some ((sequenceCall xs op).1, next', l')
  stores : l'.Stores next' (sequenceCall xs op).2
  frame : ∀ e, e ∉ xs → op.pushed ≠ some e → next' e = next e

variable {next : ListEntries ν} {l : MenList ν} {xs : List ν} {e : ν}

omit [DecidableEq ν] in
theorem menListInit_stores (next : ListEntries ν) : (menListInit : MenList ν).Stores next [] :=
  ⟨rfl, rfl, rfl, trivial, List.nodup_nil⟩

omit [DecidableEq ν] in
theorem MenList.Stores.size_toNat (h : l.Stores next xs) (hlt : xs.length < 2 ^ 32) :
    l.size.toNat = xs.length := by
  rw [h.size, BitVec.toNat_ofNat, Nat.mod_eq_of_lt hlt]

theorem size_succ {size : BitVec 32} {n : Nat} (h : size = BitVec.ofNat 32 n) :
    size + 1 = BitVec.ofNat 32 (n + 1) := by
  rw [h, BitVec.ofNat_add]
  rfl

theorem size_pred {size : BitVec 32} {n : Nat} (h : size = BitVec.ofNat 32 (n + 1)) :
    size - 1 = BitVec.ofNat 32 n := by
  rw [h, BitVec.ofNat_add]
  exact BitVec.add_sub_cancel _ _

/-- Writing to an entry of the list is not seen outside of it. -/
theorem update_of_not_mem {x y : ν} (hx : x ∈ xs) (hy : y ∉ xs) (a : Option ν) :
    Function.update next x a y = next y := by
  apply Function.update_of_ne
  rintro rfl
  exact hy hx

theorem pushFront_spec (h : l.Stores next xs) (he : e ∉ xs) :
    ∃ next' l', CallSpec next l xs (.pushFront e) next' l' := by
  refine ⟨_, _, rfl, ⟨?_, rfl, ?_, ?_, ?_⟩, ?_⟩
  · exact size_succ h.size
  · change (if l.tail = none then some e else l.tail) = (e :: xs).getLast?
    rw [h.tail]
    rcases xs with _ | ⟨x, xs⟩
    · rfl
    · rw [if_neg (by simp), List.getLast?_cons_cons]
  · change Path (Function.update next e l.head) (e :: xs) none
    rw [h.head]
    exact h.path.push_front he
  · exact List.nodup_cons.mpr ⟨he, h.nodup⟩
  · intro x hx hne
    exact Function.update_of_ne (fun hxe => hne (congrArg some hxe.symm)) _ _

omit [DecidableEq ν] in
theorem nodup_snoc : (xs ++ [e]).Nodup ↔ xs.Nodup ∧ e ∉ xs := by
  rw [← List.concat_eq_append, List.nodup_concat, and_comm]

theorem pushBack_spec (h : l.Stores next xs) (he : e ∉ xs) :
    ∃ next' l', CallSpec next l xs (.pushBack e) next' l' := by
  have hnodup : (xs ++ [e]).Nodup := nodup_snoc.mpr ⟨h.nodup, he⟩
  have hsize : l.size + 1 = BitVec.ofNat 32 (xs ++ [e]).length := by
    rw [List.length_append]
    exact size_succ h.size
  have hframe : ∀ x, some e ≠ some x → Function.update next e none x = next x := fun x hne =>
    Function.update_of_ne (fun hxe => hne (congrArg some hxe.symm)) _ _
  rcases xs.eq_nil_or_concat with hxs | ⟨ys, t, hxs⟩
  · subst hxs
    refine ⟨Function.update next e none, ⟨l.size + 1, some e, some e⟩, ?_,
      ⟨hsize, rfl, rfl, ⟨Function.update_self e none next, trivial⟩, hnodup⟩, fun x _ => hframe x⟩
    have hhead : l.head = none := h.head
    rw [MenList.call, menListPushBack, if_pos hhead]
    rfl
  · rw [List.concat_eq_append] at hxs
    subst hxs
    have hhead : l.head ≠ none := by rw [h.head]; simp
    have htail : l.tail = some t := by rw [h.tail, List.getLast?_concat]
    have hte : e ≠ t := by
      rintro rfl
      exact he (by simp)
    refine ⟨Function.update (Function.update next e none) t (some e),
      { l with tail := some e, size := l.size + 1 }, ?_, ⟨hsize, ?_, ?_, ?_, hnodup⟩, ?_⟩
    · rw [MenList.call, menListPushBack, if_neg hhead, htail]
      rfl
    · change l.head = (ys ++ [t] ++ [e]).head?
      rw [h.head]
      simp
    · exact List.getLast?_concat.symm
    · have hpath := (h.path.update he none).redirect (nodup_snoc.mp h.nodup).2 (some e)
      have hlast : Function.update (Function.update next e none) t (some e) e = [].head?.or none := by
        rw [Function.update_of_ne hte]
        exact Function.update_self e none next
      exact Linked.path_append.mpr ⟨hpath, hlast, trivial⟩
    · intro x hx hne
      rw [update_of_not_mem (by simp) hx]
      exact hframe x hne

theorem popFront_spec (h : l.Stores next xs) (hlt : xs.length < 2 ^ 32) :
    ∃ next' l', CallSpec next l xs .popFront next' l' := by
  have hsize := h.size_toNat hlt
  rcases xs with _ | ⟨x, xs⟩
  · have hempty : ¬ 0 < l.size := by
      rw [BitVec.lt_def, hsize]
      exact Nat.lt_irrefl 0
    refine ⟨next, l, ?_, h, fun _ _ _ => rfl⟩
    rw [MenList.call, menListPopFront, if_neg hempty]
    rfl
  · have hpos : 0 < l.size := by
      rw [BitVec.lt_def, hsize]
      exact Nat.succ_pos _
    obtain ⟨hx, hxs⟩ := List.nodup_cons.mp h.nodup
    obtain ⟨hnext, hpath⟩ := h.path
    rw [Option.or_none] at hnext
    refine ⟨Function.update next x none,
      { head := next x, tail := if l.tail = some x then none else l.tail, size := l.size - 1 },
      ?_, ⟨size_pred h.size, hnext, ?_, hpath.update hx none, hxs⟩, ?_⟩
    · rw [MenList.call, menListPopFront, if_pos hpos, h.head]
      rfl
    · change (if l.tail = some x then none else l.tail) = xs.getLast?
      rw [h.tail]
      rcases xs with _ | ⟨y, xs⟩
      · exact if_pos rfl
      · rw [List.getLast?_cons_cons]
        exact if_neg fun hlast => hx (List.mem_of_getLast? hlast)
    · intro y hy _
      exact update_of_not_mem List.mem_cons_self hy _

theorem popBack_spec (h : l.Stores next xs) (hlt : xs.length < 2 ^ 32) :
    ∃ next' l', CallSpec next l xs .popBack next' l' := by
  have hsize := h.size_toNat hlt
  have hone : l.size = 1 ↔ xs.length = 1 := by rw [← BitVec.toNat_inj, hsize]; rfl
  have hmore : 1 < l.size ↔ 1 < xs.length := by rw [BitVec.lt_def, hsize]; rfl
  rcases xs.eq_nil_or_concat with hxs | ⟨zs, y, hxs⟩
  · subst hxs
    refine ⟨next, l, ?_, h, fun _ _ _ => rfl⟩
    rw [MenList.call, menListPopBack, if_neg (fun h1 => nomatch hone.mp h1),
      if_neg (fun h1 => nomatch hmore.mp h1)]
    rfl
  rw [List.concat_eq_append] at hxs
  subst hxs
  rcases zs.eq_nil_or_concat with hzs | ⟨ys, x, hzs⟩
  · subst hzs
    refine ⟨next, {}, ?_, ⟨rfl, rfl, rfl, trivial, List.nodup_nil⟩, fun _ _ _ => rfl⟩
    rw [MenList.call, menListPopBack, if_pos (hone.mpr rfl), h.head]
    rfl
  · rw [List.concat_eq_append] at hzs
    subst hzs
    have hlength : (ys ++ [x] ++ [y]).length = ys.length + 2 := by simp
    obtain ⟨hnodup, hy⟩ := nodup_snoc.mp h.nodup
    obtain ⟨hfirst, -⟩ := Linked.path_append.mp h.path
    have hnext : next x = some y := by
      obtain ⟨-, hx, -⟩ := Linked.path_append.mp hfirst
      exact hx
    have hbefore : before next l.tail l.size.toNat l.head = some x := by
      have hpath := h.path
      have hnodup' := h.nodup
      rw [List.append_assoc] at hpath hnodup'
      rw [h.tail, h.head, List.getLast?_concat, List.append_assoc]
      exact hpath.before_eq hnodup' (by omega)
    have hseq : sequenceCall (ys ++ [x] ++ [y]) .popBack = (.entry (some y), ys ++ [x]) := by
      rw [sequenceCall, List.getLast?_concat, List.dropLast_concat]
    refine ⟨Function.update next x none, { l with tail := some x, size := l.size - 1 }, ?_, ?_, ?_⟩
    · rw [MenList.call, menListPopBack, if_neg (fun h1 => absurd (hone.mp h1) (by omega)),
        if_pos (hmore.mpr (by omega)), hbefore, hseq, Option.map_some, hnext]
    · rw [hseq]
      refine ⟨?_, ?_, List.getLast?_concat.symm, ?_, hnodup⟩
      · have hcount := h.size
        rw [List.length_append] at hcount
        exact size_pred hcount
      · change l.head = (ys ++ [x]).head?
        rw [h.head]
        simp
      · exact hfirst.redirect (nodup_snoc.mp hnodup).2 none
    · intro z hz _
      exact update_of_not_mem (by simp) hz _

/-- Every operation does to the entries what it does to the sequence. -/
theorem call_spec (h : l.Stores next xs) (hlt : xs.length < 2 ^ 32) (op : ListOp ν)
    (hpushed : ∀ e, op.pushed = some e → e ∉ xs) : ∃ next' l', CallSpec next l xs op next' l' := by
  cases op with
  | pushFront e => exact pushFront_spec h (hpushed e rfl)
  | pushBack e => exact pushBack_spec h (hpushed e rfl)
  | popFront => exact popFront_spec h hlt
  | popBack => exact popBack_spec h hlt
  | peekFront => exact ⟨next, l, by rw [MenList.call, h.head]; rfl, h, fun _ _ _ => rfl⟩
  | peekBack => exact ⟨next, l, by rw [MenList.call, h.tail]; rfl, h, fun _ _ _ => rfl⟩
  | foreach =>
    refine ⟨next, l, ?_, h, fun _ _ _ => rfl⟩
    rw [MenList.call, menListForeach, h.head, h.path.visit_eq (Nat.le_of_eq (h.size_toNat hlt).symm)]
    rfl

/-! ### Lists that share the entries -/

structure MenLists (ι ν : Type) where
  next : ListEntries ν
  lists : ι → MenList ν

structure MenListCall (ι ν : Type) where
  list : ι
  op : ListOp ν

variable {ι : Type} [DecidableEq ι]

/-- All lists were initialised; the entries have not been. -/
def initialLists (ι : Type) (next : ListEntries ν) : MenLists ι ν := ⟨next, fun _ => menListInit⟩

def MenLists.step (s : MenLists ι ν) (c : MenListCall ι ν) : Option (ListResult ν × MenLists ι ν) :=
  ((s.lists c.list).call s.next c.op).map fun r => (r.1, ⟨r.2.1, Function.update s.lists c.list r.2.2⟩)

def MenLists.run : List (MenListCall ι ν) → MenLists ι ν → Option (List (ListResult ν) × MenLists ι ν)
  | [], s => some ([], s)
  | c :: calls, s => (s.step c).bind fun r => (run calls r.2).map fun q => (r.1 :: q.1, q.2)

def sequencesStep (seqs : ι → List ν) (c : MenListCall ι ν) : ListResult ν × (ι → List ν) :=
  ((sequenceCall (seqs c.list) c.op).1, Function.update seqs c.list (sequenceCall (seqs c.list) c.op).2)

def sequencesRun : List (MenListCall ι ν) → (ι → List ν) → List (ListResult ν) × (ι → List ν)
  | [], seqs => ([], seqs)
  | c :: calls, seqs =>
    ((sequencesStep seqs c).1 :: (sequencesRun calls (sequencesStep seqs c).2).1,
      (sequencesRun calls (sequencesStep seqs c).2).2)

/-- Only an entry that is in no list is pushed, and to a list whose size can still be counted. -/
def Permitted (seqs : ι → List ν) (c : MenListCall ι ν) : Prop :=
  ∀ e, c.op.pushed = some e → (∀ i, e ∉ seqs i) ∧ (seqs c.list).length + 1 < 2 ^ 32

def PermittedRun : List (MenListCall ι ν) → (ι → List ν) → Prop
  | [], _ => True
  | c :: calls, seqs => Permitted seqs c ∧ PermittedRun calls (sequencesStep seqs c).2

/-- Every list stands for its sequence, and no entry is in two of them. -/
structure ListsRefine (s : MenLists ι ν) (seqs : ι → List ν) : Prop where
  stores : ∀ i, (s.lists i).Stores s.next (seqs i)
  apart : ∀ i j e, e ∈ seqs i → e ∈ seqs j → i = j
  counted : ∀ i, (seqs i).length < 2 ^ 32

omit [DecidableEq ν] in
theorem mem_sequenceCall {op : ListOp ν} (h : e ∈ (sequenceCall xs op).2) : e ∈ xs ∨ op.pushed = some e := by
  cases op with
  | pushFront a =>
    rcases List.mem_cons.mp h with rfl | h
    · exact .inr rfl
    · exact .inl h
  | pushBack a =>
    rcases List.mem_append.mp h with h | h
    · exact .inl h
    · exact .inr (congrArg some (List.mem_singleton.mp h).symm)
  | popFront => exact .inl (List.mem_of_mem_tail h)
  | popBack => exact .inl ((List.dropLast_sublist xs).subset h)
  | peekFront => exact .inl h
  | peekBack => exact .inl h
  | foreach => exact .inl h

omit [DecidableEq ν] in
theorem length_sequenceCall {op : ListOp ν} {n : Nat} (hlt : xs.length < n)
    (hpushed : ∀ e, op.pushed = some e → xs.length + 1 < n) : (sequenceCall xs op).2.length < n := by
  cases op with
  | pushFront a => exact hpushed a rfl
  | pushBack a =>
    rw [sequenceCall, List.length_append]
    exact hpushed a rfl
  | popFront =>
    rw [sequenceCall, List.length_tail]
    omega
  | popBack =>
    rw [sequenceCall, List.length_dropLast]
    omega
  | peekFront => exact hlt
  | peekBack => exact hlt
  | foreach => exact hlt

variable {s : MenLists ι ν} {seqs : ι → List ν} {c : MenListCall ι ν}

omit [DecidableEq ν] in
theorem sequencesStep_self (seqs : ι → List ν) (c : MenListCall ι ν) :
    (sequencesStep seqs c).2 c.list = (sequenceCall (seqs c.list) c.op).2 := Function.update_self ..

omit [DecidableEq ν] in
theorem sequencesStep_of_ne {i : ι} (hi : i ≠ c.list) : (sequencesStep seqs c).2 i = seqs i :=
  Function.update_of_ne hi ..

/-- A call for one list is not seen in the others. -/
theorem step_refines (h : ListsRefine s seqs) (hc : Permitted seqs c) :
    ∃ s', s.step c = some ((sequencesStep seqs c).1, s') ∧ ListsRefine s' (sequencesStep seqs c).2 := by
  obtain ⟨next', l', hcall⟩ := call_spec (h.stores c.list) (h.counted c.list) c.op
    fun e he => (hc e he).1 c.list
  have hmem : ∀ i e, e ∈ (sequencesStep seqs c).2 i → e ∈ seqs i ∨ i = c.list ∧ c.op.pushed = some e := by
    intro i e he
    by_cases hi : i = c.list
    · subst hi
      rw [sequencesStep_self] at he
      rcases mem_sequenceCall he with he | he
      · exact .inl he
      · exact .inr ⟨rfl, he⟩
    · rw [sequencesStep_of_ne hi] at he
      exact .inl he
  refine ⟨⟨next', Function.update s.lists c.list l'⟩, ?_, ⟨fun i => ?_, ?_, fun i => ?_⟩⟩
  · rw [MenLists.step, hcall.returns]
    rfl
  · by_cases hi : i = c.list
    · subst hi
      rw [sequencesStep_self]
      simp only [Function.update_self]
      exact hcall.stores
    · have hother := h.stores i
      rw [sequencesStep_of_ne hi]
      simp only [Function.update_of_ne hi]
      refine ⟨hother.size, hother.head, hother.tail, ?_, hother.nodup⟩
      refine hother.path.congr fun e he => hcall.frame e ?_ fun hpushed => ?_
      · exact fun he' => hi (h.apart i c.list e he he')
      · exact (hc e hpushed).1 i he
  · intro i j e hi hj
    rcases hmem i e hi with hin | ⟨hi, hpushed⟩
    · rcases hmem j e hj with hjn | ⟨-, hpushed⟩
      · exact h.apart i j e hin hjn
      · exact absurd hin ((hc e hpushed).1 i)
    · rcases hmem j e hj with hjn | ⟨hj, -⟩
      · exact absurd hjn ((hc e hpushed).1 j)
      · exact hi.trans hj.symm
  · by_cases hi : i = c.list
    · subst hi
      rw [sequencesStep_self]
      exact length_sequenceCall (h.counted _) fun e he => (hc e he).2
    · rw [sequencesStep_of_ne hi]
      exact h.counted i

theorem run_refines (calls : List (MenListCall ι ν)) (h : ListsRefine s seqs)
    (hcalls : PermittedRun calls seqs) :
    ∃ s', s.run calls = some ((sequencesRun calls seqs).1, s') ∧
      ListsRefine s' (sequencesRun calls seqs).2 := by
  induction calls generalizing s seqs with
  | nil => exact ⟨s, rfl, h⟩
  | cons c calls ih =>
    obtain ⟨hc, hrest⟩ := hcalls
    obtain ⟨s', hstep, h'⟩ := step_refines h hc
    obtain ⟨s'', hrun, h''⟩ := ih h' hrest
    refine ⟨s'', ?_, h''⟩
    rw [MenLists.run, hstep, Option.bind_some, hrun]
    rfl

omit [DecidableEq ν] [DecidableEq ι] in
theorem initialLists_refine (next : ListEntries ν) : ListsRefine (initialLists ι next) fun _ => [] where
  stores := fun _ => menListInit_stores next
  apart := fun _ _ _ he => absurd he List.not_mem_nil
  counted := fun _ => Nat.two_pow_pos 32

/-- What can be seen of a list that is the sequence `xs`. -/
structure MenList.IsSequence (next : ListEntries ν) (l : MenList ν) (xs : List ν) : Prop where
  size : l.size.toNat = xs.length
  head : l.head = xs.head?
  tail : l.tail = xs.getLast?
  visits : ∀ fuel, xs.length ≤ fuel → visit next fuel l.head = some xs

/-- Every run of operations answers and leaves the lists as the sequences do. -/
theorem menList_refines_sequences (next : ListEntries ν) (calls : List (MenListCall ι ν))
    (hcalls : PermittedRun calls fun _ => []) :
    ∃ s, (initialLists ι next).run calls = some ((sequencesRun calls fun _ => []).1, s) ∧
      ∀ i, (s.lists i).IsSequence s.next ((sequencesRun calls fun _ => []).2 i) := by
  obtain ⟨s, hrun, hs⟩ := run_refines calls (initialLists_refine next) hcalls
  refine ⟨s, hrun, fun i => ?_⟩
  have hi := hs.stores i
  refine ⟨hi.size_toNat (hs.counted i), hi.head, hi.tail, fun fuel hfuel => ?_⟩
  rw [hi.head]
  exact hi.path.visit_eq hfuel

/-- The entry 1 goes from one list to the other. -/
def movedEntry : List (MenListCall Bool Nat) :=
  [⟨false, .pushBack 1⟩, ⟨false, .pushFront 2⟩, ⟨true, .pushBack 3⟩, ⟨false, .popBack⟩, ⟨true, .pushFront 1⟩]

theorem movedEntry_refines :
    ∃ s, (initialLists Bool fun _ => none).run movedEntry =
        some ((sequencesRun movedEntry fun _ => []).1, s) ∧
      ∀ i, (s.lists i).IsSequence s.next ((sequencesRun movedEntry fun _ => []).2 i) := by
  refine menList_refines_sequences (fun _ => none) movedEntry ?_
  simp [movedEntry, PermittedRun, Permitted, ListOp.pushed, sequencesStep, sequenceCall, Function.update]

/-! ### What the lists do not keep -/

/-- An entry that was pushed to the back of the only list. -/
def pushBacks (es : List ν) : List (MenListCall Unit ν) := es.map fun e => ⟨(), .pushBack e⟩

omit [DecidableEq ν] in
theorem sequencesRun_pushBacks (es xs : List ν) :
    (sequencesRun (pushBacks es) fun _ => xs).2 = fun _ => xs ++ es := by
  induction es generalizing xs with
  | nil => rw [List.append_nil]; rfl
  | cons e es ih =>
    have hstep : (sequencesStep (fun _ => xs) (⟨(), .pushBack e⟩ : MenListCall Unit ν)).2 =
        fun _ => xs ++ [e] := by
      funext i
      exact sequencesStep_self (fun _ => xs) ⟨(), .pushBack e⟩
    have hrun : (sequencesRun (pushBacks (e :: es)) fun _ => xs).2 =
        (sequencesRun (pushBacks es) (sequencesStep (fun _ => xs) ⟨(), .pushBack e⟩).2).2 := rfl
    rw [hrun, hstep, ih, List.append_assoc]
    rfl

/-- However many entries are pushed, the list stores them; only its size may be wrong. -/
theorem run_pushBacks (es : List ν) {s : MenLists Unit ν} (h : (s.lists ()).Stores s.next xs)
    (hnodup : (xs ++ es).Nodup) :
    ∃ results s', s.run (pushBacks es) = some (results, s') ∧ (s'.lists ()).Stores s'.next (xs ++ es) := by
  induction es generalizing s xs with
  | nil =>
    rw [List.append_nil]
    exact ⟨[], s, rfl, h⟩
  | cons e es ih =>
    have hmoved : xs ++ e :: es = xs ++ [e] ++ es := by rw [List.append_assoc]; rfl
    rw [hmoved] at hnodup ⊢
    obtain ⟨next', l', hcall⟩ := pushBack_spec h (nodup_snoc.mp hnodup.of_append_left).2
    have hself : Function.update s.lists () l' () = l' := Function.update_self ..
    obtain ⟨results, s', hrun, hs'⟩ := @ih (xs ++ [e]) ⟨next', Function.update s.lists () l'⟩
      (hself.symm ▸ hcall.stores) hnodup
    refine ⟨.done :: results, s', ?_, hs'⟩
    have hstep : s.step ⟨(), .pushBack e⟩ = some (.done, ⟨next', Function.update s.lists () l'⟩) := by
      rw [MenLists.step, hcall.returns]
      rfl
    have hcons : s.run (pushBacks (e :: es)) = (s.step ⟨(), .pushBack e⟩).bind fun r =>
        (r.2.run (pushBacks es)).map fun q => (r.1 :: q.1, q.2) := rfl
    rw [hcons, hstep, Option.bind_some, hrun]
    rfl

/-- The previous entry can be told from what an entry holds. -/
def FollowsPrevious (previous : Option ν → Option ν) : Prop :=
  ∀ calls : List (MenListCall Unit ν), PermittedRun calls (fun _ => []) →
    ∀ results s, (initialLists Unit fun _ => none).run calls = some (results, s) →
      visit (fun e => previous (s.next e)) (s.lists ()).size.toNat (s.lists ()).tail =
        some ((sequencesRun calls fun _ => []).2 ()).reverse

theorem FollowsPrevious.last {previous : Option Nat → Option Nat} (h : FollowsPrevious previous) {e : Nat}
    (he : e ≠ 2) : previous none = some e := by
  have hpermitted : PermittedRun (pushBacks [e, 2]) fun _ => [] := by
    simp [pushBacks, PermittedRun, Permitted, ListOp.pushed, sequencesStep, sequenceCall, he.symm]
  obtain ⟨results, s, hrun, hs⟩ := @run_pushBacks Nat _ [] [e, 2] (initialLists Unit fun _ => none)
    (menListInit_stores _) (by simp [he])
  have hback := h _ hpermitted results s hrun
  have hlink : s.next 2 = none := hs.path.2.1
  rw [sequencesRun_pushBacks] at hback
  obtain ⟨-, hrest⟩ := Linked.eq_of_visit_cons hback
  obtain ⟨hlast, -⟩ := Linked.eq_of_visit_cons hrest
  rw [hlink] at hlast
  exact hlast

/-- The size is counted modulo 2^32. -/
theorem run_pushBacks_range (n : Nat) :
    ∃ results s, (initialLists Unit fun _ => none).run (pushBacks (List.range n)) = some (results, s) ∧
      (s.lists ()).size = BitVec.ofNat 32 n ∧
        ((sequencesRun (pushBacks (List.range n)) fun _ => []).2 ()).length = n := by
  obtain ⟨results, s, hrun, hs⟩ := @run_pushBacks Nat _ [] (List.range n)
    (initialLists Unit fun _ => none) (menListInit_stores _) List.nodup_range
  have hsize := hs.size
  rw [List.nil_append, List.length_range] at hsize
  refine ⟨results, s, hrun, hsize, ?_⟩
  rw [sequencesRun_pushBacks]
  exact List.length_range

/-- The last entry holds nothing of the one before it, and 2^32 entries are counted as none. -/
theorem menList_no_previous_and_size :
    (∀ previous : Option Nat → Option Nat, ¬ FollowsPrevious previous) ∧
      ∃ results s,
        (initialLists Unit fun _ => none).run (pushBacks (List.range (2 ^ 32))) = some (results, s) ∧
        (s.lists ()).size = 0 ∧
          ((sequencesRun (pushBacks (List.range (2 ^ 32))) fun _ => []).2 ()).length = 2 ^ 32 := by
  constructor
  · intro previous h
    have hzero := @FollowsPrevious.last previous h 0 (by decide)
    have hone := @FollowsPrevious.last previous h 1 (by decide)
    rw [hzero] at hone
    cases hone
  · have hwrap : BitVec.ofNat 32 (2 ^ 32) = 0 := by decide
    obtain ⟨results, s, hrun, hsize, hlength⟩ := run_pushBacks_range (2 ^ 32)
    rw [hwrap] at hsize
    exact ⟨results, s, hrun, hsize, hlength⟩

end MenableDriver
