import Mathlib.Data.List.Nodup
import Mathlib.Logic.Function.Basic

/-!
# Doubly linked lists through their nodes

The nodes carry the links, so a list is a node and what follows it. `Chain` says that the
nodes of a list follow each other, that every link forward is mirrored backward, and that
the last node has no follower; of the first node's link backward it says nothing.
-/

namespace Intrusive

set_option autoImplicit false

structure Links (ν : Type) where
  next : ν → Option ν
  previous : ν → Option ν

variable {ν : Type}

namespace Links

variable [DecidableEq ν]

def setNext (l : Links ν) (a : ν) (o : Option ν) : Links ν := { l with next := Function.update l.next a o }

def setPrevious (l : Links ν) (a : ν) (o : Option ν) : Links ν :=
  { l with previous := Function.update l.previous a o }

/-- `follower` comes behind `item`. -/
def setFollower (l : Links ν) (item : ν) (follower : Option ν) : Links ν :=
  match follower with
  | none => l.setNext item none
  | some f => (l.setNext item (some f)).setPrevious f (some item)

def unlinkItem (l : Links ν) (a : ν) : Links ν := (l.setPrevious a none).setNext a none

theorem setNext_eq_self {l : Links ν} {a : ν} {o : Option ν} (h : l.next a = o) : l.setNext a o = l := by
  rw [← h, setNext, Function.update_eq_self]

theorem setPrevious_eq_self {l : Links ν} {a : ν} {o : Option ν} (h : l.previous a = o) :
    l.setPrevious a o = l := by
  rw [← h, setPrevious, Function.update_eq_self]

@[simp] theorem setFollower_next (l : Links ν) (a : ν) (o : Option ν) :
    (l.setFollower a o).next = Function.update l.next a o := by
  cases o <;> rfl

theorem setFollower_previous (l : Links ν) (a b : ν) (o : Option ν) :
    (l.setFollower a o).previous b = if o = some b then some a else l.previous b := by
  cases o with
  | none => rfl
  | some f =>
    simp only [setFollower, setNext, setPrevious, Function.update_apply, Option.some.injEq]
    split_ifs with h₁ h₂ h₂
    · rfl
    · exact absurd h₁.symm h₂
    · exact absurd h₂.symm h₁
    · rfl

@[simp] theorem unlinkItem_next (l : Links ν) (a : ν) :
    (l.unlinkItem a).next = Function.update l.next a none := rfl

@[simp] theorem unlinkItem_previous (l : Links ν) (a : ν) :
    (l.unlinkItem a).previous = Function.update l.previous a none := rfl

end Links

def Chain (l : Links ν) : List ν → Prop
  | [] => True
  | [z] => l.next z = none
  | z :: y :: zs => l.next z = some y ∧ l.previous y = some z ∧ Chain l (y :: zs)

variable {l l' : Links ν}

theorem Chain.tail {z : ν} {zs : List ν} (h : Chain l (z :: zs)) : Chain l zs := by
  cases zs with
  | nil => trivial
  | cons => exact h.2.2

theorem Chain.next_eq {z : ν} {zs : List ν} (h : Chain l (z :: zs)) : l.next z = zs.head? := by
  cases zs with
  | nil => exact h
  | cons => exact h.1

theorem Chain.suffix {xs zs : List ν} (h : Chain l (xs ++ zs)) : Chain l zs := by
  induction xs with
  | nil => exact h
  | cons x xs ih => exact ih h.tail

theorem Chain.previous_eq {xs zs : List ν} {z y : ν} (h : Chain l (xs ++ z :: y :: zs)) :
    l.previous y = some z := h.suffix.2.1

/-- Only the links between the nodes of the list matter. -/
theorem Chain.congr {zs : List ν} (h : Chain l zs) (hnext : ∀ z ∈ zs, l'.next z = l.next z)
    (hprev : ∀ z ∈ zs.tail, l'.previous z = l.previous z) : Chain l' zs := by
  induction zs with
  | nil => trivial
  | cons z zs ih =>
    cases zs with
    | nil => exact (hnext z (by simp)).trans h
    | cons y zs =>
      refine ⟨(hnext z (by simp)).trans h.1, (hprev y (by simp)).trans h.2.1, ih h.2.2 ?_ ?_⟩
      · exact fun w hw => hnext w (List.mem_cons_of_mem z hw)
      · exact fun w hw => hprev w (List.mem_cons_of_mem y hw)

theorem Chain.setFollower [DecidableEq ν] {zs : List ν} {z : ν} {o : Option ν} (h : Chain l zs) (hz : z ∉ zs)
    (ho : ∀ f ∈ o, f ∉ zs) : Chain (l.setFollower z o) zs := by
  refine h.congr ?_ ?_
  · intro w hw
    rw [Links.setFollower_next, Function.update_of_ne fun he : w = z => hz (he ▸ hw)]
  · intro w hw
    rw [Links.setFollower_previous, if_neg fun he : o = some w => ho w he (List.mem_of_mem_tail hw)]

theorem Chain.unlinkItem [DecidableEq ν] {zs : List ν} {z : ν} (h : Chain l zs) (hz : z ∉ zs) :
    Chain (l.unlinkItem z) zs := by
  refine h.congr ?_ ?_
  · intro w hw
    rw [Links.unlinkItem_next, Function.update_of_ne fun he : w = z => hz (he ▸ hw)]
  · intro w hw
    rw [Links.unlinkItem_previous, Function.update_of_ne fun he : w = z => hz (he ▸ List.mem_of_mem_tail hw)]

/-- The nodes from `z` on are replaced by `z` and `ys`. -/
theorem Chain.splice [DecidableEq ν] {xs ys zs : List ν} {z : ν} (h : Chain l (xs ++ z :: zs))
    (hys : Chain l ys)
    (hnodup : (xs ++ z :: ys).Nodup) : Chain (l.setFollower z ys.head?) (xs ++ z :: ys) := by
  induction xs with
  | nil =>
    cases ys with
    | nil => simp [Chain]
    | cons y ys =>
      obtain ⟨hz, hy, -⟩ : z ∉ y :: ys ∧ y ∉ ys ∧ ys.Nodup := by simpa using hnodup
      refine ⟨by simp, by simp [Links.setFollower_previous], hys.congr ?_ ?_⟩
      · intro w hw
        rw [Links.setFollower_next, Function.update_of_ne fun he : w = z => hz (he ▸ hw)]
      · intro w hw
        rw [Links.setFollower_previous, if_neg]
        intro he
        exact hy (Option.some.inj he ▸ hw)
  | cons x xs ih =>
    have hx : x ∉ xs ++ z :: ys := (List.nodup_cons.mp hnodup).1
    have hih := ih h.tail (List.nodup_cons.mp hnodup).2
    -- the link out of `x` leads into `xs` or to `z`, and neither is moved
    obtain ⟨y, ws, hy⟩ : ∃ y ws, xs ++ z :: ys = y :: ws := List.exists_cons_of_ne_nil (by simp)
    have hhead : (xs ++ z :: zs).head? = some y := by
      have hy' : (xs ++ z :: ys).head? = some y := by rw [hy]; rfl
      cases xs <;> simpa using hy'
    have hyhead : ys.head? ≠ some y := by
      intro he
      have hmem : y ∈ ys := List.mem_of_mem_head? (by rw [he]; rfl)
      have hnd := (List.nodup_cons.mp hnodup).2
      cases xs with
      | nil =>
        simp only [List.nil_append, List.cons.injEq] at hy
        exact (List.nodup_cons.mp hnd).1 (hy.1 ▸ hmem)
      | cons v xs =>
        simp only [List.cons_append, List.cons.injEq] at hy
        exact (List.nodup_cons.mp hnd).1 (hy.1 ▸ by simp [hmem])
    have hprev : l.previous y = some x := by
      obtain ⟨vs, hvs⟩ := List.head?_eq_some_iff.mp hhead
      have hx' : Chain l ([] ++ x :: y :: vs) := by simpa [hvs] using h
      exact hx'.previous_eq
    have hxz : x ≠ z := fun he => hx (by simp [he])
    rw [List.cons_append, hy]
    refine ⟨?_, ?_, hy ▸ hih⟩
    · rw [Links.setFollower_next, Function.update_of_ne hxz]
      exact (Chain.next_eq h).trans hhead
    · rw [Links.setFollower_previous, if_neg hyhead, hprev]

/-- The walk to the last node; it stops after `fuel` links. -/
def lastFrom (l : Links ν) : Nat → ν → Option ν
  | 0, _ => none
  | fuel + 1, z =>
    match l.next z with
    | none => some z
    | some y => lastFrom l fuel y

theorem Chain.lastFrom_eq {fuel : Nat} {z : ν} {zs : List ν} (h : Chain l (z :: zs))
    (hfuel : zs.length < fuel) :
    lastFrom l fuel z = some ((z :: zs).getLast (by simp)) := by
  induction zs generalizing z fuel with
  | nil =>
    obtain ⟨fuel, rfl⟩ := Nat.exists_eq_add_of_lt hfuel
    simp [lastFrom, h.next_eq]
  | cons y zs ih =>
    obtain ⟨fuel, rfl⟩ : ∃ k, fuel = k + 1 := ⟨fuel - 1, by simp at hfuel; omega⟩
    simp only [lastFrom, h.next_eq, List.head?_cons]
    rw [ih h.tail (by simpa using hfuel)]
    simp

/-- The walk from a node, in search of `b`. -/
def findFrom [DecidableEq ν] (l : Links ν) (b : ν) : Nat → Option ν → Option Bool
  | _, none => some false
  | 0, some _ => none
  | fuel + 1, some z => if z = b then some true else findFrom l b fuel (l.next z)

theorem Chain.findFrom_eq [DecidableEq ν] (b : ν) {fuel : Nat} {zs : List ν} (h : Chain l zs)
    (hfuel : zs.length ≤ fuel) :
    findFrom l b fuel zs.head? = some (decide (b ∈ zs)) := by
  induction zs generalizing fuel with
  | nil => cases fuel <;> simp [findFrom]
  | cons z zs ih =>
    obtain ⟨fuel, rfl⟩ : ∃ k, fuel = k + 1 := ⟨fuel - 1, by simp at hfuel; omega⟩
    simp only [List.head?_cons, findFrom]
    by_cases hz : z = b
    · simp [hz]
    · have hb : ¬ b = z := fun he => hz he.symm
      rw [if_neg hz, h.next_eq, ih h.tail (by simpa using hfuel)]
      simp [hb]

/-- The number of nodes of the walk. -/
def countFrom (l : Links ν) : Nat → Option ν → Option Nat
  | _, none => some 0
  | 0, some _ => none
  | fuel + 1, some z => (countFrom l fuel (l.next z)).map (· + 1)

theorem Chain.countFrom_eq {fuel : Nat} {zs : List ν} (h : Chain l zs) (hfuel : zs.length ≤ fuel) :
    countFrom l fuel zs.head? = some zs.length := by
  induction zs generalizing fuel with
  | nil => cases fuel <;> simp [countFrom]
  | cons z zs ih =>
    obtain ⟨fuel, rfl⟩ : ∃ k, fuel = k + 1 := ⟨fuel - 1, by simp at hfuel; omega⟩
    simp only [List.head?_cons, countFrom, h.next_eq]
    rw [ih h.tail (by simpa using hfuel)]
    simp

end Intrusive
