import Mathlib.Algebra.Order.Ring.Int
import Mathlib.Tactic.ByContra

/-!
# Credit that a counter gives back

Events are counted, and now and then the credit is given back in full. Where a counter decides this by
a division, and the counter is a signed one of 32 bits that is extended to 64 bits for the division, the
credit comes back in time up to the overflow of the counter. `Slips` says when it does not.
-/

namespace Credit

set_option autoImplicit false

/-- The events since the credit was given back, after the event `n`. -/
def since (back : Nat → Bool) : Nat → Nat
  | 0 => 0
  | n + 1 => if back (n + 1) then 0 else since back n + 1

theorem since_le_iff (back : Nat → Bool) (n d : Nat) :
    since back n ≤ d ↔ ∃ k ≤ n, n ≤ k + d ∧ (k = 0 ∨ back k = true) := by
  induction n generalizing d with
  | zero => exact ⟨fun _ => ⟨0, Nat.le_refl 0, Nat.zero_le _, Or.inl rfl⟩, fun _ => Nat.zero_le d⟩
  | succ n ih =>
    unfold since
    split_ifs with hback
    · exact ⟨fun _ => ⟨n + 1, Nat.le_refl _, Nat.le_add_right _ _, Or.inr hback⟩, fun _ => Nat.zero_le d⟩
    · constructor
      · intro hle
        obtain ⟨k, hk, hd, hb⟩ := (ih (d - 1)).mp (by omega)
        exact ⟨k, by omega, by omega, hb⟩
      · rintro ⟨k, hk, hd, hb⟩
        have hne : k ≠ n + 1 := by
          rintro rfl
          rcases hb with hzero | hb
          · omega
          · exact hback hb
        have hrest := (ih (d - 1)).mpr ⟨k, by omega, by omega, hb⟩
        omega

/-! ### The counter -/

/-- A signed counter of 32 bits after `n` steps, extended to 64 bits. -/
def extended (n : Nat) : Nat := ((BitVec.ofNat 32 n).signExtend 64).toNat

def refills (q n : Nat) : Bool := decide (extended n % q = 0)

theorem extended_low {n : Nat} (h : n % 2 ^ 32 < 2 ^ 31) : extended n = n % 2 ^ 32 := by
  have hmsb : (BitVec.ofNat 32 n).msb = false := by
    rw [BitVec.msb_eq_false_iff_two_mul_lt, BitVec.toNat_ofNat]
    omega
  unfold extended
  rw [BitVec.toNat_signExtend, hmsb]
  simp
  omega

theorem extended_high {n : Nat} (h : 2 ^ 31 ≤ n % 2 ^ 32) :
    extended n = (2 ^ 64 - 2 ^ 31) + (n % 2 ^ 32 - 2 ^ 31) := by
  have hmsb : (BitVec.ofNat 32 n).msb = true := by
    rw [BitVec.msb_eq_true_iff_two_mul_ge, BitVec.toNat_ofNat]
    omega
  unfold extended
  rw [BitVec.toNat_signExtend, hmsb]
  simp
  omega

/-- The number of the last event before the overflow at which the credit comes back. -/
def lastRefill (q : Nat) : Nat := 2 ^ 31 - 1 - (2 ^ 31 - 1) % q

/-- The smallest value of the counter leaves a remainder that lets the next multiple come too late, and
there are events enough to see it. -/
def Slips (q n : Nat) : Prop :=
  0 < (2 ^ 64 - 2 ^ 31) % q ∧ (2 ^ 64 - 2 ^ 31) % q ≤ (2 ^ 31 - 1) % q ∧ lastRefill q + q < n

instance (q n : Nat) : Decidable (Slips q n) := inferInstanceAs (Decidable (_ ∧ _ ∧ _))

variable {q n i : Nat}

theorem refills_of_dvd (h : q ∣ extended i) : refills q i = true :=
  decide_eq_true (Nat.mod_eq_zero_of_dvd h)

theorem dvd_lastRefill (q : Nat) : q ∣ lastRefill q := Nat.dvd_sub_mod _

theorem extended_mod (h : 2 ^ 31 ≤ i % 2 ^ 32) :
    extended i % q = ((2 ^ 64 - 2 ^ 31) % q + (i % 2 ^ 32 - 2 ^ 31)) % q := by
  rw [extended_high h, Nat.mod_add_mod]

/-- Below the overflow the multiples of `q` are reached one after the other. -/
theorem refilled_low (hq : 0 < q) (hlow : i % 2 ^ 32 < 2 ^ 31) :
    ∃ k ≤ i, i ≤ k + (q - 1) ∧ (k = 0 ∨ refills q k = true) := by
  have hmod := Nat.mod_lt (i % 2 ^ 32) hq
  have hle := Nat.mod_le (i % 2 ^ 32) q
  have hdvd : q ∣ i % 2 ^ 32 - i % 2 ^ 32 % q := Nat.dvd_sub_mod _
  refine ⟨i - i % 2 ^ 32 % q, by omega, by omega, Or.inr (refills_of_dvd ?_)⟩
  rw [extended_low (by omega)]
  have hk : (i - i % 2 ^ 32 % q) % 2 ^ 32 = i % 2 ^ 32 - i % 2 ^ 32 % q := by omega
  rwa [hk]

/-- Behind the overflow, after the first multiple there. -/
theorem refilled_high (hq : 0 < q) (hhigh : 2 ^ 31 ≤ i % 2 ^ 32)
    (hreached : extended i % q ≤ i % 2 ^ 32 - 2 ^ 31) :
    ∃ k ≤ i, i ≤ k + (q - 1) ∧ (k = 0 ∨ refills q k = true) := by
  have hmod := Nat.mod_lt (extended i) hq
  have hdvd : q ∣ extended i - extended i % q := Nat.dvd_sub_mod _
  have hi := extended_high hhigh
  refine ⟨i - extended i % q, by omega, by omega, Or.inr (refills_of_dvd ?_)⟩
  rw [extended_high (by omega)]
  have hk : 2 ^ 64 - 2 ^ 31 + ((i - extended i % q) % 2 ^ 32 - 2 ^ 31) = extended i - extended i % q := by
    omega
  rwa [hk]

/-- Behind the overflow, and before the first multiple there: the last one is from before the
overflow. -/
theorem refilled_between (hq : 0 < q) (hlt : q < 2 ^ 31) (hn : ¬Slips q n) (hi : i < n)
    (hhigh : 2 ^ 31 ≤ i % 2 ^ 32) (hnone : i % 2 ^ 32 - 2 ^ 31 < extended i % q) :
    ∃ k ≤ i, i ≤ k + (q - 1) ∧ (k = 0 ∨ refills q k = true) := by
  have hbefore := Nat.mod_lt (2 ^ 31 - 1) hq
  have hsmallest := Nat.mod_lt (2 ^ 64 - 2 ^ 31) hq
  have hle := Nat.mod_le (2 ^ 31 - 1) q
  have hlast : lastRefill q = 2 ^ 31 - 1 - (2 ^ 31 - 1) % q := rfl
  have hext := Nat.mod_lt (extended i) hq
  have hsum : (2 ^ 64 - 2 ^ 31) % q + (i % 2 ^ 32 - 2 ^ 31) < q := by
    by_contra hge
    have hwrapped : extended i % q = (2 ^ 64 - 2 ^ 31) % q + (i % 2 ^ 32 - 2 ^ 31) - q := by
      rw [extended_mod hhigh, Nat.mod_eq_sub_mod (Nat.le_of_not_lt hge)]
      exact Nat.mod_eq_of_lt (by omega)
    omega
  have hmod : extended i % q = (2 ^ 64 - 2 ^ 31) % q + (i % 2 ^ 32 - 2 ^ 31) := by
    rw [extended_mod hhigh, Nat.mod_eq_of_lt hsum]
  have hnear : i % 2 ^ 32 ≤ lastRefill q + (q - 1) := by
    by_contra hfar
    exact hn ⟨by omega, by omega, by omega⟩
  refine ⟨i - i % 2 ^ 32 + lastRefill q, by omega, by omega, Or.inr (refills_of_dvd ?_)⟩
  have hk : (i - i % 2 ^ 32 + lastRefill q) % 2 ^ 32 = lastRefill q := by omega
  rw [extended_low (by omega), hk]
  exact dvd_lastRefill q

/-- After a slip no multiple lies between the last one before the overflow and `q` events later. -/
theorem not_refills (hq : 0 < q) (hlt : q < 2 ^ 31) (hs : Slips q n) {k : Nat} (hk : lastRefill q < k)
    (hkq : k ≤ lastRefill q + q) : refills q k = false := by
  obtain ⟨hpos, hle, -⟩ := hs
  have hbefore := Nat.mod_lt (2 ^ 31 - 1) hq
  have hleq := Nat.mod_le (2 ^ 31 - 1) q
  have hlast : lastRefill q = 2 ^ 31 - 1 - (2 ^ 31 - 1) % q := rfl
  have hk32 : k % 2 ^ 32 = k := Nat.mod_eq_of_lt (by omega)
  apply decide_eq_false
  by_cases hlow : k < 2 ^ 31
  · rw [extended_low (by omega), hk32]
    obtain ⟨c, rfl⟩ := Nat.exists_eq_add_of_le (Nat.le_of_lt hk)
    rw [Nat.add_mod, Nat.mod_eq_zero_of_dvd (dvd_lastRefill q), Nat.zero_add, Nat.mod_mod,
      Nat.mod_eq_of_lt (by omega)]
    omega
  · rw [extended_mod (by omega), hk32, Nat.mod_eq_of_lt (by omega)]
    omega

/-- The credit is never overdrawn, but by a slip. -/
theorem since_lt_iff (hq : 0 < q) (hlt : q < 2 ^ 31) :
    (∀ i < n, since (refills q) i + 1 ≤ q) ↔ ¬Slips q n := by
  constructor
  · intro h hs
    have hlater : since (refills q) (lastRefill q + q) ≤ q - 1 := by
      have := h (lastRefill q + q) hs.2.2
      omega
    obtain ⟨k, hk, hnear, hzero | hback⟩ := (since_le_iff _ _ _).mp hlater
    · have hpos : 0 < lastRefill q := by
        have hbefore := Nat.mod_lt (2 ^ 31 - 1) hq
        unfold lastRefill
        omega
      omega
    · rw [not_refills hq hlt hs (by omega) hk] at hback
      exact Bool.false_ne_true hback
  · intro hn i hi
    have hback : since (refills q) i ≤ q - 1 := by
      apply (since_le_iff _ _ _).mpr
      by_cases hlow : i % 2 ^ 32 < 2 ^ 31
      · exact refilled_low hq hlow
      · by_cases hreached : extended i % q ≤ i % 2 ^ 32 - 2 ^ 31
        · exact refilled_high hq (Nat.le_of_not_lt hlow) hreached
        · exact refilled_between hq hlt hn hi (Nat.le_of_not_lt hlow) (Nat.lt_of_not_le hreached)
    omega

end Credit
