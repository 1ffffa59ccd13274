import Mathlib.Data.List.Basic
import Mathlib.Data.List.Nodup
import Mathlib.Data.List.Perm.Basic
import Mathlib.Logic.Function.Basic

/-!
# Families of lists and the places of their members

`L : ι → List α` are finitely or infinitely many ordered shelves. `At L a p` says where
an item lies: once on the shelf `i` and on no other for `p = some i`, on none for
`p = none`. Items are taken off, put on at either end and moved; each operation is
described by where the item and all others lie afterwards and by the length of every
shelf.
-/

namespace Shelves

universe u v
variable {ι : Type u} {α : Type v}

def On (L : ι → List α) (a : α) : Prop := ∃ i, a ∈ L i

variable [DecidableEq α]

def takeOff (L : ι → List α) (a : α) : ι → List α := fun i => (L i).erase a

variable [DecidableEq ι]

def At (L : ι → List α) (a : α) (p : Option ι) : Prop := ∀ i, (L i).count a = if p = some i then 1 else 0

def putLast (L : ι → List α) (a : α) (i : ι) : ι → List α :=
  Function.update L i (L i ++ [a])

def putFirst (L : ι → List α) (a : α) (i : ι) : ι → List α :=
  Function.update L i (a :: L i)

def moveLast (L : ι → List α) (a : α) (i : ι) : ι → List α := putLast (takeOff L a) a i

variable {L : ι → List α} {a b : α} {i j : ι} {p q : Option ι}

namespace At

theorem mem_iff (h : At L a p) : a ∈ L i ↔ p = some i := by
  rw [← List.count_pos_iff, h i]
  split_ifs with hp <;> simp [hp]

theorem not_mem (h : At L a none) (i : ι) : a ∉ L i := fun hm => by cases h.mem_iff.mp hm

theorem not_on (h : At L a none) : ¬ On L a := fun ⟨i, hi⟩ => h.not_mem i hi

theorem on_iff : At L a p → (On L a ↔ p ≠ none) := by
  intro h
  constructor
  · rintro ⟨i, hi⟩ rfl
    exact h.not_mem i hi
  · intro hp
    obtain ⟨i, rfl⟩ := Option.ne_none_iff_exists'.mp hp
    exact ⟨i, h.mem_iff.mpr rfl⟩

theorem unique (h : At L a p) (h' : At L a q) : p = q := by
  cases hp : p with
  | some i => exact (h'.mem_iff.mp (h.mem_iff.mpr hp)).symm
  | none =>
    subst hp
    by_contra hq
    exact h.not_on (h'.on_iff.mpr (Ne.symm hq))

theorem of_not_on (h : ¬ On L a) : At L a none := by
  intro i
  rw [if_neg (by simp)]
  exact List.count_eq_zero.mpr fun hm => h ⟨i, hm⟩

theorem takeOff_self (h : At L a p) : At (takeOff L a) a none := by
  intro i
  have := h i
  rw [takeOff, List.count_erase_self, this]
  split_ifs <;> simp_all

theorem putLast_self (h : At L a none) (i : ι) : At (putLast L a i) a (some i) := by
  intro j
  by_cases hj : j = i
  · subst hj
    simp [putLast, h j]
  · simp [putLast, hj, h j, Ne.symm hj]

theorem moveLast_self (h : At L a p) (i : ι) : At (moveLast L a i) a (some i) :=
  h.takeOff_self.putLast_self i

theorem takeOff_ne (h : At L a p) (hi : p ≠ some i) : takeOff L a i = L i :=
  List.erase_of_not_mem fun hm => hi (h.mem_iff.mp hm)

end At

omit [DecidableEq ι] in
theorem mem_of_mem_takeOff (h : b ∈ takeOff L a i) : b ∈ L i := List.mem_of_mem_erase h

omit [DecidableEq α] in
@[simp] theorem putLast_same : putLast L a i i = L i ++ [a] := by simp [putLast]

omit [DecidableEq α] in
theorem putLast_ne (h : j ≠ i) : putLast L a i j = L j := by simp [putLast, h]

omit [DecidableEq α] in
theorem mem_putLast : b ∈ putLast L a i j ↔ b ∈ L j ∨ (j = i ∧ b = a) := by
  by_cases hj : j = i
  · subst j
    simp [putLast]
  · simp [putLast, hj]

omit [DecidableEq α] in
@[simp] theorem putFirst_same : putFirst L a i i = a :: L i := by simp [putFirst]

omit [DecidableEq α] in
theorem putFirst_ne (h : j ≠ i) : putFirst L a i j = L j := by simp [putFirst, h]

omit [DecidableEq α] in
theorem mem_putFirst : b ∈ putFirst L a i j ↔ b ∈ L j ∨ (j = i ∧ b = a) := by
  by_cases hj : j = i
  · subst j
    simp [putFirst, or_comm]
  · simp [putFirst, hj]

theorem mem_moveLast (h : b ∈ moveLast L a i j) : b ∈ L j ∨ (j = i ∧ b = a) :=
  (mem_putLast.mp h).imp_left mem_of_mem_takeOff

/-- The item goes from one place to another, and nothing else moves. -/
structure Shift (L L' : ι → List α) (a : α) (p q : Option ι) : Prop where
  before : At L a p
  after : At L' a q
  others : ∀ b, b ≠ a → ∀ i, (L' i).count b = (L i).count b

namespace Shift
variable {L' : ι → List α}

theorem moveLast (h : At L a p) (i : ι) : Shift L (moveLast L a i) a p (some i) where
  before := h
  after := h.moveLast_self i
  others b hab j := by
    by_cases hj : j = i
    · subst hj
      simp [Shelves.moveLast, takeOff, List.count_append, List.count_erase_of_ne hab, Ne.symm hab]
    · simp [Shelves.moveLast, putLast_ne hj, takeOff, List.count_erase_of_ne hab]

theorem takeOff (h : At L a p) : Shift L (takeOff L a) a p none where
  before := h
  after := h.takeOff_self
  others _ hab _ := List.count_erase_of_ne hab

theorem putLast (h : At L a none) (i : ι) : Shift L (putLast L a i) a none (some i) where
  before := h
  after := h.putLast_self i
  others b hab j := by
    by_cases hj : j = i
    · subst hj
      simp [List.count_append, Ne.symm hab]
    · rw [putLast_ne hj]

variable (h : Shift L L' a p q)
include h

theorem symm : Shift L' L a q p := ⟨h.after, h.before, fun b hab i => (h.others b hab i).symm⟩

theorem at_iff {r : Option ι} (hab : b ≠ a) : At L' b r ↔ At L b r := by
  unfold At
  simp only [h.others b hab]

theorem mem_iff (hab : b ≠ a) : b ∈ L' i ↔ b ∈ L i := by
  rw [← List.count_pos_iff, h.others b hab, List.count_pos_iff]

/-- The shelf that is left has the same items but one. -/
theorem perm_from (hp : p = some i) (hq : q ≠ some i) : (a :: L' i).Perm (L i) :=
  List.perm_iff_count.mpr fun b => by
    by_cases hb : b = a
    · subst hb
      rw [List.count_cons_self, h.before i, h.after i, if_pos hp, if_neg hq]
    · rw [List.count_cons_of_ne (Ne.symm hb), h.others b hb]

theorem perm_to (hp : p ≠ some i) (hq : q = some i) : (a :: L i).Perm (L' i) := h.symm.perm_from hq hp

theorem perm_other (hp : p ≠ some i) (hq : q ≠ some i) : (L' i).Perm (L i) :=
  List.perm_iff_count.mpr fun b => by
    by_cases hb : b = a
    · subst hb
      rw [h.before i, h.after i, if_neg hp, if_neg hq]
    · rw [h.others b hb]

end Shift

/-- A test that changes its mind on one member of a list counts one more. -/
theorem countP_flip {l : List α} {f g : α → Bool} (hl : l.Nodup) (ha : a ∈ l) (hf : f a = false)
    (hg : g a = true) (hfg : ∀ b ∈ l, b ≠ a → f b = g b) : l.countP g = l.countP f + 1 := by
  have hperm := List.perm_cons_erase ha
  have hrest : (l.erase a).countP f = (l.erase a).countP g := List.countP_congr fun b hb => by
    obtain ⟨hne, hmem⟩ := hl.mem_erase_iff.mp hb
    rw [hfg b hmem hne]
  rw [hperm.countP_eq g, hperm.countP_eq f, List.countP_cons_of_pos hg,
    List.countP_cons_of_neg (by simp [hf]), hrest]

end Shelves
