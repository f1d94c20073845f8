import Mathlib

/-! Numbers as decimal text in ASCII bytes: what `%d` writes and what a reader of
digits makes of it again. -/
namespace AsdPre.Decimal

/-- The digits of a number, most significant first; those of 0 are one zero. -/
def digits (k : Nat) : List (BitVec 8) := (Nat.toDigits 10 k).map fun c => BitVec.ofNat 8 c.toNat

def IsDigit (c : BitVec 8) : Prop := 0x30 ≤ c.toNat ∧ c.toNat ≤ 0x39

instance (c : BitVec 8) : Decidable (IsDigit c) := inferInstanceAs (Decidable (_ ∧ _))

/-- The number that a text of digits adds to what was read before. -/
def value (before : Nat) (text : List (BitVec 8)) : Nat :=
  text.foldl (fun read c => read * 10 + (c.toNat - 0x30)) before

theorem toNat_byte {c : Char} (digit : c.isDigit = true) :
    (BitVec.ofNat 8 c.toNat).toNat = c.toNat ∧ 0x30 ≤ c.toNat ∧ c.toNat ≤ 0x39 := by
  simp only [Char.isDigit, Bool.and_eq_true, decide_eq_true_eq] at digit
  have low : 0x30 ≤ c.toNat := digit.1
  have high : c.toNat ≤ 0x39 := digit.2
  rw [BitVec.toNat_ofNat]
  omega

theorem isDigit_of_mem {k : Nat} {c : BitVec 8} (member : c ∈ digits k) : IsDigit c := by
  obtain ⟨char, inDigits, rfl⟩ := List.mem_map.mp member
  obtain ⟨same, low, high⟩ := toNat_byte (Nat.isDigit_of_mem_toDigits (by decide) (by decide) inDigits)
  exact ⟨by omega, by omega⟩

theorem digits_ne_nil (k : Nat) : digits k ≠ [] := by
  simp [digits, Nat.toDigits_ne_nil]

theorem value_map (before : Nat) (cs : List Char) (all : ∀ c ∈ cs, c.isDigit = true) :
    value before (cs.map fun c => BitVec.ofNat 8 c.toNat) = Nat.ofDigitChars 10 cs before := by
  induction cs generalizing before with
  | nil => simp [value]
  | cons c cs ih =>
    have same := (toNat_byte (all c (by simp))).1
    have zero : '0'.toNat = 0x30 := rfl
    have later := ih (before * 10 + (c.toNat - 0x30)) fun c' member => all c' (by simp [member])
    rw [Nat.ofDigitChars_cons, Nat.mul_comm 10 before, zero, ← later]
    simp [value, same]

/-- Reading gives back what was written. -/
theorem value_digits (k : Nat) : value 0 (digits k) = k := by
  have all : ∀ c ∈ Nat.toDigits 10 k, c.isDigit = true := fun c member =>
    Nat.isDigit_of_mem_toDigits (by decide) (by decide) member
  rw [digits, value_map 0 _ all, Nat.ofDigitChars_ten_toDigits]

/-- Only 0 starts with a zero. -/
theorem head_digits (k : Nat) (zero : (digits k).head? = some 0x30#8) : k = 0 := by
  induction k using Nat.strong_induction_on with
  | _ k ih =>
    have split := Nat.toDigits_eq_if (b := 10) (n := k) (by decide)
    by_cases small : k < 10
    · rw [digits, split, if_pos small] at zero
      have code := Nat.toNat_digitChar_of_lt_ten small
      have same : BitVec.ofNat 8 (48 + k) = 0x30#8 := by simpa [code] using zero
      have low := congrArg BitVec.toNat same
      simp only [BitVec.toNat_ofNat] at low
      omega
    · rw [digits, split, if_neg small, List.map_append] at zero
      have front : (digits (k / 10)).head? = some 0x30#8 := by
        rwa [List.head?_append_of_ne_nil] at zero
        exact digits_ne_nil _
      have fewer := ih (k / 10) (by omega) front
      omega

end AsdPre.Decimal
