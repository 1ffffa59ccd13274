import Mathlib.Data.List.Perm.Basic

/-!
# Ledgers of resources

A ledger lists what was taken and what was released. It holds a list of resources when these
are the ones that were taken and not released, each as often as it was taken.
-/

set_option autoImplicit false

universe u
variable {α : Type u}

structure Ledger (α : Type u) where
  taken : List α := []
  released : List α := []

namespace Ledger

def take (l : Ledger α) (a : α) : Ledger α := { l with taken := a :: l.taken }

def release (l : Ledger α) (a : α) : Ledger α := { l with released := a :: l.released }

def takeAll (l : Ledger α) (as : List α) : Ledger α := { l with taken := as ++ l.taken }

def releaseAll (l : Ledger α) (as : List α) : Ledger α := { l with released := as ++ l.released }

def Holds (l : Ledger α) (held : List α) : Prop := (l.released ++ held).Perm l.taken

variable {l : Ledger α} {a : α} {held held' : List α}

theorem holds_empty : ({} : Ledger α).Holds [] := .nil

theorem Holds.perm (h : l.Holds held) (hp : held.Perm held') : l.Holds held' :=
  (hp.symm.append_left l.released).trans h

/-- What a ledger holds is determined. -/
theorem Holds.unique (h : l.Holds held) (h' : l.Holds held') : held.Perm held' :=
  (List.perm_append_left_iff l.released).mp (h.trans h'.symm)

theorem Holds.length (h : l.Holds held) : l.released.length + held.length = l.taken.length := by
  rw [← List.length_append]
  exact h.length_eq

theorem Holds.take (h : l.Holds held) (a : α) : (l.take a).Holds (a :: held) :=
  List.perm_middle.trans (h.cons a)

theorem Holds.release (h : l.Holds (a :: held)) : (l.release a).Holds held :=
  List.perm_middle.symm.trans h

theorem holds_release : (l.release a).Holds held ↔ l.Holds (a :: held) :=
  ⟨fun h => List.perm_middle.trans h, Holds.release⟩

theorem Holds.takeAll (h : l.Holds held) (as : List α) : (l.takeAll as).Holds (as ++ held) := by
  induction as with
  | nil => exact h
  | cons a as ih => exact ih.take a

theorem holds_releaseAll {as : List α} : (l.releaseAll as).Holds held ↔ l.Holds (as ++ held) := by
  have hcomm : (as ++ l.released ++ held).Perm (l.released ++ (as ++ held)) := by
    rw [← List.append_assoc]
    exact List.perm_append_comm.append_right held
  exact ⟨fun h => hcomm.symm.trans h, fun h => hcomm.trans h⟩

/-- A resource that was released twice is missed somewhere. -/
theorem Holds.not_release_twice (h : l.Holds held) (a : α) :
    ¬ (((l.take a).release a).release a).Holds held := by
  intro h'
  have hlength := h.length
  have hlength' := h'.length
  simp only [Ledger.take, Ledger.release, List.length_cons] at hlength'
  omega

end Ledger
