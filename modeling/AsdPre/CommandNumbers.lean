import AsdPre.CommandStream
import AsdPre.Decimal

/-! Numbers in commands. Decimal text never announces another base, so `strtol` with
base 0 reads it as it was meant, and saturates. -/
namespace AsdPre.CommandNumbers

open ByteMemory Firmware CommandServer CommandStream Tokens Decimal

theorem decimal_eq (n : Int) :
    decimal n = (if n < 0 then [0x2d#8] else []) ++ digits n.natAbs := rfl

theorem decimal_ne_nil (n : Int) : decimal n ≠ [] := by
  simp [decimal_eq, digits_ne_nil]

theorem mem_decimal {n : Int} {c : Byte} (member : c ∈ decimal n) : c = 0x2d#8 ∨ IsDigit c := by
  rw [decimal_eq] at member
  rcases List.mem_append.mp member with sign | digit
  · split at sign <;> simp_all
  · exact .inr (isDigit_of_mem digit)

/-- Digits do not start with a sign. -/
theorem head_unsigned (k : Nat) :
    (digits k).head? ≠ some 0x2d#8 ∧ (digits k).head? ≠ some 0x2b#8 := by
  constructor <;> intro head
  · have digit := isDigit_of_mem (List.mem_of_mem_head? head)
    exact absurd digit (by simp [IsDigit])
  · have digit := isDigit_of_mem (List.mem_of_mem_head? head)
    exact absurd digit (by simp [IsDigit])

/-- No byte of a number is one of a few that mean something else. -/
theorem decimal_avoids {n : Int} {c : Byte} (member : c ∈ decimal n) :
    c.toNat = 0x2d ∨ 0x30 ≤ c.toNat ∧ c.toNat ≤ 0x39 := by
  rcases mem_decimal member with rfl | digit
  · exact .inl rfl
  · exact .inr digit

section Strtol

theorem digitValue_digit {c : Byte} (digit : IsDigit c) : digitValue c = some (c.toNat - 0x30) := by
  obtain ⟨low, high⟩ := digit
  have range : 0x30#8 ≤ c ∧ c ≤ 0x39#8 := by
    simp only [BitVec.le_def, BitVec.toNat_ofNat]
    omega
  rw [digitValue, if_pos range]

theorem digitsValue_digits (before : Nat) (text : List Byte) (all : ∀ c ∈ text, IsDigit c) :
    digitsValue 10 before text = value before text := by
  induction text generalizing before with
  | nil => rfl
  | cons c text ih =>
    have digit := all c (by simp)
    have small : c.toNat - 0x30 < 10 := by
      obtain ⟨_, _⟩ := digit
      omega
    have later := ih (before * 10 + (c.toNat - 0x30)) fun e member => all e (by simp [member])
    simp only [digitsValue, digitValue_digit digit, if_pos small, later]
    rfl

/-- A leading zero would mean octal, but only 0 has one. -/
theorem announced_digits (k : Nat) :
    digitsValue (announcedBase (digits k)).1 0 (announcedBase (digits k)).2 = k := by
  by_cases zero : k = 0
  · subst zero
    decide
  · have first : (digits k).head? ≠ some 0x30 := fun head => zero (head_digits k head)
    have hex : ∀ mark, (digits k).take 2 ≠ [0x30, mark] := by
      intro mark same
      apply first
      have head := congrArg List.head? same
      simpa [List.head?_take] using head
    rw [announcedBase, if_neg (not_or.mpr ⟨hex _, hex _⟩), if_neg first]
    exact (digitsValue_digits 0 _ fun c member => isDigit_of_mem member).trans (value_digits k)

theorem isSpace_of_decimal {n : Int} {c : Byte} (member : c ∈ decimal n) : isSpace c = false := by
  have range := decimal_avoids member
  simp only [isSpace, Bool.or_eq_false_iff, decide_eq_false_iff_not, Bool.and_eq_false_iff,
    ← BitVec.toNat_inj, BitVec.le_def, BitVec.toNat_ofNat]
  omega

theorem strtol_decimal (n : Int) :
    strtol (decimal n) = BitVec.ofInt 32 (max (-2 ^ 31) (min n (2 ^ 31 - 1))) := by
  have start : (decimal n).dropWhile isSpace = decimal n := by
    rw [List.dropWhile_eq_self_iff]
    intro bound
    simp [isSpace_of_decimal (List.getElem_mem bound)]
  have read := announced_digits n.natAbs
  by_cases negative : n < 0
  · have text : decimal n = 0x2d#8 :: digits n.natAbs := by simp [decimal_eq, negative]
    have magnitude : -|n| = n := by rw [abs_of_neg negative, neg_neg]
    simp only [strtol, start]
    simp [text, read, magnitude]
  · have text : decimal n = digits n.natAbs := by simp [decimal_eq, negative]
    have magnitude : |n| = n := abs_of_nonneg (by omega)
    have unsigned := head_unsigned n.natAbs
    simp only [strtol, start]
    simp [text, read, magnitude, unsigned]

/-- The number as the `int16_t` parameter of `setVol` receives it. -/
theorem toInt_setWidth_strtol (n : Int) : ((strtol (decimal n)).setWidth 16).toInt =
    (max (-2 ^ 31) (min n (2 ^ 31 - 1))).bmod (2 ^ 16) := by
  rw [strtol_decimal, BitVec.toInt_setWidth, BitVec.toNat_ofInt]
  generalize max (-2 ^ 31) (min n (2 ^ 31 - 1)) = saturated
  rw [Int.bmod_eq_bmod_iff_bmod_sub_eq_zero, ← Int.dvd_iff_bmod_eq_zero]
  omega

/-- A number that an `int16_t` can hold is neither saturated nor cut. -/
theorem saturated_bmod (n : Int) (low : -2 ^ 15 ≤ n) (high : n < 2 ^ 15) :
    (max (-2 ^ 31) (min n (2 ^ 31 - 1))).bmod (2 ^ 16) = n := by
  rw [max_eq_right (by omega), min_eq_left (by omega)]
  exact Int.bmod_eq_of_le (by omega) (by omega)

theorem toInt_strtol (n : Int) (low : -2 ^ 31 ≤ n) (high : n < 2 ^ 31) :
    (strtol (decimal n)).toInt = n := by
  rw [strtol_decimal, max_eq_right (by omega), min_eq_left (by omega)]
  exact BitVec.toInt_ofInt_eq_self (by decide) (by omega) (by omega)

end Strtol

section Lines

variable (d : Device) (verb : Verb) (n : Int)

/-- A command with a number, and one without, as the client ends them. -/
def numberLine : List Byte := verb.name ++ 0x20#8 :: decimal n ++ [0x0a#8]

def plainLine : List Byte := verb.name ++ [0x0a#8]

theorem name_solid : ∀ c ∈ verb.name, isSep c = false := by
  cases verb <;> simp [Verb.name, ascii, isSep, separators]

theorem name_nulFree : 0#8 ∉ verb.name := by
  cases verb <;> simp [Verb.name, ascii]

theorem name_ne_nil : verb.name ≠ [] := by
  cases verb <;> simp [Verb.name, ascii]

theorem decimal_solid : ∀ c ∈ decimal n, isSep c = false := by
  intro c member
  have range := decimal_avoids member
  simp [isSep, separators, ← BitVec.toNat_inj]
  omega

theorem decimal_nulFree : 0#8 ∉ decimal n := by
  intro member
  have range := decimal_avoids member
  simp at range

theorem serverRecv_number : serverRecv d (numberLine verb n) =
    (execute d (some (decimal n)) verb).map fun (d', reply) =>
      (d', ⟨some (verb, if verb.takesArg then some (decimal n) else none), reply⟩) := by
  have clean : 0#8 ∉ numberLine verb n := by
    simp [numberLine, name_nulFree, decimal_nulFree]
  have tokens : tokenPair isSep (numberLine verb n) = some (verb.name, some (decimal n)) := by
    rw [numberLine, tokenPair_blank blank_newline]
    exact tokenPair_words (name_solid verb) (name_ne_nil verb) (decimal_solid n) (decimal_ne_nil n)
      (by decide)
  simp [serverRecv, recText_of_nulFree clean, tokens, ofToken_name]

theorem serverRecv_plain : serverRecv d (plainLine verb) =
    (execute d none verb).map fun (d', reply) => (d', ⟨some (verb, none), reply⟩) := by
  have clean : 0#8 ∉ plainLine verb := by simp [plainLine, name_nulFree]
  have tokens : tokenPair isSep (plainLine verb) = some (verb.name, none) := by
    rw [plainLine, tokenPair_blank blank_newline]
    exact tokenPair_word (name_solid verb) (name_ne_nil verb)
  simp [serverRecv, recText_of_nulFree clean, tokens, ofToken_name]

end Lines

end AsdPre.CommandNumbers
