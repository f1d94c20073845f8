import Mathlib

/-! Ones' complement arithmetic on words below `m`: sums are taken modulo `m - 1`, with
zero and `m - 1` as two forms of the same residue. A sum that starts from nothing is
zero only if all that was added is. -/
namespace AsdPre.OnesComplement

/-- Two numbers of which a ones' complement sum cannot tell one from the other. -/
def Same (m x y : Nat) : Prop := x ≡ y [MOD m - 1] ∧ (x = 0 ↔ y = 0)

/-- The carries added back in. -/
def fold (m u : Nat) : Nat := u / m + u % m

/-- The two digits of a word exchanged. -/
def swap (b w : Nat) : Nat := w % b * b + w / b % b

variable {m b x y z x' y' u w : Nat}

theorem Same.refl (x : Nat) : Same m x x := ⟨.refl x, .rfl⟩

theorem Same.symm (h : Same m x y) : Same m y x := ⟨h.1.symm, h.2.symm⟩

theorem Same.trans (h : Same m x y) (h' : Same m y z) : Same m x z := ⟨h.1.trans h'.1, h.2.trans h'.2⟩

theorem Same.add (h : Same m x y) (h' : Same m x' y') : Same m (x + x') (y + y') := by
  refine ⟨h.1.add h'.1, ?_⟩
  rw [Nat.add_eq_zero_iff, Nat.add_eq_zero_iff, h.2, h'.2]

theorem Same.mul (k : Nat) (h : Same m x y) : Same m (k * x) (k * y) := by
  refine ⟨h.1.mul_left k, ?_⟩
  rw [Nat.mul_eq_zero, Nat.mul_eq_zero, h.2]

/-- A carry counts as one. -/
theorem same_carry (positive : 0 < m) (n : Nat) : Same m (m * n) n := by
  refine ⟨?_, by simp [positive.ne']⟩
  have one : m ≡ 1 [MOD m - 1] := by
    have split : m = 1 + (m - 1) := by omega
    rw [split, Nat.add_sub_cancel_left]
    exact Nat.add_modEq_right
  simpa using one.mul_right n

theorem same_fold (positive : 0 < m) (u : Nat) : Same m (fold m u) u := by
  have parts : Same m (fold m u) (m * (u / m) + u % m) := (same_carry positive (u / m)).symm.add (.refl _)
  rwa [Nat.div_add_mod] at parts

theorem fold_le (positive : 0 < m) (small : u ≤ 2 * (m - 1)) : fold m u ≤ m - 1 := by
  have remainder := Nat.mod_lt u positive
  have parts := Nat.div_add_mod u m
  rw [fold]
  by_cases below : u < m
  · rw [Nat.div_eq_of_lt below, Nat.mod_eq_of_lt below]
    omega
  · have quotient : u / m = 1 := by
      apply Nat.div_eq_of_lt_le <;> omega
    rw [quotient] at parts ⊢
    omega

theorem fold_le_twice (small : u < m * m) : fold m u ≤ 2 * (m - 1) := by
  have positive : 0 < m := by
    rcases Nat.eq_zero_or_pos m with rfl | positive
    · simp at small
    · exact positive
  have quotient : u / m < m := Nat.div_lt_of_lt_mul small
  have remainder := Nat.mod_lt u positive
  rw [fold]
  omega

/-- Exchanging the digits shifts by one of them. -/
theorem same_swap (positive : 0 < b) (word : w < b * b) : Same (b * b) (swap b w) (b * w) := by
  have top : w / b < b := Nat.div_lt_of_lt_mul word
  have parts := Nat.div_add_mod w b
  have shifted : b * w = b * b * (w / b) + w % b * b := by
    conv_lhs => rw [← parts]
    ring
  have exchanged : swap b w = w / b + w % b * b := by
    rw [swap, Nat.mod_eq_of_lt top, Nat.add_comm]
  rw [shifted, exchanged]
  exact (same_carry (Nat.mul_pos positive positive) _).symm.add (.refl _)

theorem swap_lt (positive : 0 < b) (w : Nat) : swap b w < b * b := by
  have low := Nat.mod_lt w positive
  have high := Nat.mod_lt (w / b) positive
  have scaled : w % b * b + b ≤ b * b := by
    calc w % b * b + b = (w % b + 1) * b := by ring
      _ ≤ b * b := Nat.mul_le_mul_right b low
  rw [swap]
  omega

/-- Words have one form each but for zero and `m - 1`, and these are told apart. -/
theorem Same.eq (h : Same m x y) (left : x ≤ m - 1) (right : y ≤ m - 1) : x = y := by
  rcases Nat.eq_zero_or_pos x with zero | positive
  · rw [zero, h.2.mp zero]
  · have other : 0 < y := Nat.pos_of_ne_zero fun zero => positive.ne' (h.2.mpr zero)
    have residues : x % (m - 1) = y % (m - 1) := h.1
    rcases Nat.lt_or_eq_of_le left with less | top <;> rcases Nat.lt_or_eq_of_le right with less' | top'
    · rwa [Nat.mod_eq_of_lt less, Nat.mod_eq_of_lt less'] at residues
    · rw [Nat.mod_eq_of_lt less, top', Nat.mod_self] at residues
      omega
    · rw [top, Nat.mod_self, Nat.mod_eq_of_lt less'] at residues
      omega
    · omega

/-- An even power of the digit base counts as one. -/
theorem same_pow (positive : 0 < b) (k n : Nat) : Same (b * b) (b ^ k * n) (b ^ (k % 2) * n) := by
  induction k using Nat.twoStepInduction with
  | zero => exact .refl _
  | one => exact .refl _
  | more k ih _ =>
    have twice : b ^ (k + 2) * n = b * b * (b ^ k * n) := by ring
    have parity : (k + 2) % 2 = k % 2 := by omega
    rw [twice, parity]
    exact (same_carry (Nat.mul_pos positive positive) _).trans ih

end AsdPre.OnesComplement
