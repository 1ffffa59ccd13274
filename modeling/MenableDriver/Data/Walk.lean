import Mathlib.Data.Fintype.Pigeonhole
import Mathlib.Tactic.ByContra

/-!
# Walks along links

A list is linked from a start and from each of its nodes, and ends with a reason instead of a node. Nothing
says that it ends: the links may lead back to a node. A search for the first node with a property ends all
the same, unless it comes back to a node before it finds one.
-/

namespace Walk

set_option autoImplicit false

universe u v
variable {α : Type u} {ε : Type v}

/-- The node with the number `n`, or the reason why the list has ended before it. -/
def node (start : ε ⊕ α) (next : α → ε ⊕ α) : Nat → ε ⊕ α
  | 0 => start
  | n + 1 => (node start next n).elim .inl next

/-- The search, for as many nodes as `fuel` says. -/
def search (next : α → ε ⊕ α) (p : α → Bool) : Nat → ε ⊕ α → Option (ε ⊕ α)
  | 0, _ => none
  | _ + 1, .inl e => some (.inl e)
  | fuel + 1, .inr a => if p a then some (.inr a) else search next p fuel (next a)

/-- The search stops here. -/
def Stops (p : α → Bool) : ε ⊕ α → Prop
  | .inl _ => True
  | .inr a => p a = true

/-- The first node with the property. -/
def IsFirst (start : ε ⊕ α) (next : α → ε ⊕ α) (p : α → Bool) (a : α) : Prop :=
  ∃ n, node start next n = .inr a ∧ p a = true ∧ ∀ m < n, ¬Stops p (node start next m)

/-- The list comes back to a node, and up to there has neither the property nor an end. -/
def Loops (start : ε ⊕ α) (next : α → ε ⊕ α) (p : α → Bool) : Prop :=
  ∃ i j, i < j ∧ node start next i = node start next j ∧ ∀ k ≤ j, ¬Stops p (node start next k)

variable {start : ε ⊕ α} {next : α → ε ⊕ α} {p : α → Bool} {r : ε ⊕ α} {a b : α} {n m fuel : Nat}

theorem node_succ' (n : Nat) : node start next (n + 1) = node (start.elim .inl next) next n := by
  induction n with
  | zero => rfl
  | succ n ih =>
    rw [node, ih]
    rfl

/-- What the search finds, and where. -/
theorem search_eq_some_iff (fuel : Nat) : ∀ start, search next p fuel start = some r ↔
    ∃ n < fuel, node start next n = r ∧ Stops p r ∧ ∀ m < n, ¬Stops p (node start next m) := by
  induction fuel with
  | zero =>
    intro start
    refine iff_of_false (by simp [search]) ?_
    rintro ⟨n, hn, -⟩
    exact Nat.not_lt_zero n hn
  | succ fuel ih =>
    intro start
    have hhere : Stops p start → (search next p (fuel + 1) start = some r ↔
        ∃ n < fuel + 1, node start next n = r ∧ Stops p r ∧ ∀ m < n, ¬Stops p (node start next m)) := by
      intro hstop
      have hsearch : search next p (fuel + 1) start = some start := by
        cases start with
        | inl e => rfl
        | inr a => exact if_pos hstop
      rw [hsearch, Option.some_inj]
      constructor
      · rintro rfl
        exact ⟨0, Nat.succ_pos fuel, rfl, hstop, fun m hm => absurd hm (Nat.not_lt_zero m)⟩
      · rintro ⟨n, -, hn, -, hbefore⟩
        rcases Nat.eq_zero_or_pos n with rfl | hpos
        · exact hn
        · exact absurd hstop (hbefore 0 hpos)
    cases start with
    | inl e => exact hhere trivial
    | inr a =>
      by_cases hp : p a = true
      · exact hhere hp
      · rw [search, if_neg hp, ih]
        constructor
        · rintro ⟨n, hn, hnode, hstop, hbefore⟩
          refine ⟨n + 1, Nat.succ_lt_succ hn, by rw [node_succ']; exact hnode, hstop, ?_⟩
          rintro (_ | m) hm
          · exact hp
          · rw [node_succ']
            exact hbefore m (Nat.lt_of_succ_lt_succ hm)
        · rintro ⟨n, hn, hnode, hstop, hbefore⟩
          cases n with
          | zero =>
            obtain rfl : Sum.inr a = r := hnode
            exact absurd hstop hp
          | succ n =>
            rw [node_succ'] at hnode
            refine ⟨n, Nat.lt_of_succ_lt_succ hn, hnode, hstop, fun m hm => ?_⟩
            have hbefore' := hbefore (m + 1) (Nat.succ_lt_succ hm)
            rwa [node_succ'] at hbefore'

/-- A list that comes back has no other nodes than those up to there. -/
theorem Loops.exists_node_eq {i j : Nat} (hij : i < j) (h : node start next i = node start next j) (n : Nat) :
    ∃ k ≤ j, node start next n = node start next k := by
  induction n with
  | zero => exact ⟨0, Nat.zero_le j, rfl⟩
  | succ n ih =>
    obtain ⟨k, hk, heq⟩ := ih
    rcases Nat.lt_or_ge k j with hlt | hge
    · exact ⟨k + 1, hlt, by rw [node, heq]; rfl⟩
    · obtain rfl : k = j := Nat.le_antisymm hk hge
      refine ⟨i + 1, hij, ?_⟩
      rw [node, heq, ← h]
      rfl

theorem Loops.not_stops (h : Loops start next p) (n : Nat) : ¬Stops p (node start next n) := by
  obtain ⟨i, j, hij, heq, hbefore⟩ := h
  obtain ⟨k, hk, hn⟩ := Loops.exists_node_eq hij heq n
  rw [hn]
  exact hbefore k hk

/-- Among finitely many nodes a search that does not stop comes back to one of them. -/
theorem loops_of_not_stops [Finite α] (h : ∀ n, ¬Stops p (node start next n)) : Loops start next p := by
  have hnodes : ∀ n, ∃ a, node start next n = .inr a := by
    intro n
    cases hn : node start next n with
    | inl e => exact absurd (hn ▸ trivial : Stops p (node start next n)) (h n)
    | inr a => exact ⟨a, rfl⟩
  choose f hf using hnodes
  obtain ⟨i, j, hne, heq⟩ := Finite.exists_ne_map_eq_of_infinite f
  have hnode : node start next i = node start next j := by rw [hf, hf, heq]
  rcases Nat.lt_or_gt_of_ne hne with hlt | hlt
  · exact ⟨i, j, hlt, hnode, fun k _ => h k⟩
  · exact ⟨j, i, hlt, hnode.symm, fun k _ => h k⟩

/-- A search ends if and only if it does not come back to a node. -/
theorem search_ends_iff [Finite α] :
    (∃ fuel r, search next p fuel start = some r) ↔ ¬Loops start next p := by
  constructor
  · rintro ⟨fuel, r, hsearch⟩ hloops
    obtain ⟨n, -, hn, hstop, -⟩ := (search_eq_some_iff fuel start).mp hsearch
    exact hloops.not_stops n (hn ▸ hstop)
  · intro hloops
    have hstops : ∃ n, Stops p (node start next n) := by
      by_contra hnone
      exact hloops (loops_of_not_stops fun n hn => hnone ⟨n, hn⟩)
    classical
    refine ⟨Nat.find hstops + 1, node start next (Nat.find hstops), ?_⟩
    apply (search_eq_some_iff _ start).mpr
    exact ⟨Nat.find hstops, Nat.lt_succ_self _, rfl, Nat.find_spec hstops, fun m hm => Nat.find_min hstops hm⟩

/-- The first place where a search stops is the only one. -/
theorem stops_unique (hn : Stops p (node start next n)) (hm : Stops p (node start next m))
    (hbn : ∀ k < n, ¬Stops p (node start next k)) (hbm : ∀ k < m, ¬Stops p (node start next k)) : n = m := by
  rcases Nat.lt_trichotomy n m with hlt | heq | hlt
  · exact absurd hn (hbm n hlt)
  · exact heq
  · exact absurd hm (hbn m hlt)

theorem isFirst_of_search (h : search next p fuel start = some (.inr a)) : IsFirst start next p a := by
  obtain ⟨n, -, hn, hstop, hbefore⟩ := (search_eq_some_iff fuel start).mp h
  exact ⟨n, hn, hstop, hbefore⟩

theorem IsFirst.eq_of_search (hfirst : IsFirst start next p a) (h : search next p fuel start = some r) :
    r = .inr a := by
  obtain ⟨n, -, hn, hstop, hbefore⟩ := (search_eq_some_iff fuel start).mp h
  obtain ⟨m, hm, hp, hbm⟩ := hfirst
  have hmstop : Stops p (node start next m) := by
    rw [hm]
    exact hp
  obtain rfl := stops_unique (hn ▸ hstop) hmstop hbefore hbm
  rw [← hn, hm]

end Walk
