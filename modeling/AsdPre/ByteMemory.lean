import Mathlib

/-! Byte-addressed memory and the C string and integer accesses over it. A memory
is total: an access that leaves its object shows as a changed byte elsewhere
rather than being ruled out, so that a frame lemma is also a bounds check. -/
namespace AsdPre.ByteMemory

abbrev Byte := BitVec 8
abbrev Memory := Nat → Byte

/-- The characters of an ASCII literal. -/
def ascii (s : String) : List Byte := s.toList.map fun c => BitVec.ofNat 8 c.toNat

/-- A C string without its terminator. -/
structure CString where
  bytes : List Byte
  nulFree : 0#8 ∉ bytes
  deriving DecidableEq, Repr

/-- `strlen` -/
def CString.length (s : CString) : Nat := s.bytes.length

/-- Reading past the characters gives the terminator. -/
def CString.char (s : CString) (i : Nat) : Byte := s.bytes.getD i 0#8

theorem CString.ext_bytes {s t : CString} (same : s.bytes = t.bytes) : s = t := by
  cases s; cases t; simp_all

def write (m : Memory) (a : Nat) (bytes : List Byte) : Memory :=
  fun x => if a ≤ x ∧ x < a + bytes.length then bytes.getD (x - a) 0#8 else m x

def read (m : Memory) (a n : Nat) : List Byte := (List.range n).map fun i => m (a + i)

/-- `memcpy` between two objects, from the start of each. -/
def memcpy (dst src : Memory) (n : Nat) : Memory := fun x => if x < n then src x else dst x

def strcpy (m : Memory) (a : Nat) (s : CString) : Memory := write m a (s.bytes ++ [0#8])

/-- `strncmp`: the difference at the first mismatch, up to the terminator or `n` characters. -/
def strncmp (s t : Nat → Byte) : Nat → Int
  | 0 => 0
  | n + 1 =>
    if s 0 ≠ t 0 then (s 0).toNat - (t 0).toNat
    else if s 0 = 0#8 then 0
    else strncmp (fun i => s (i + 1)) (fun i => t (i + 1)) n

/-- The string in a field of `n` bytes, which need not be terminated. -/
def fieldString (m : Memory) (a n : Nat) : List Byte := (read m a n).takeWhile (· ≠ 0#8)

/-- The little-endian bytes of a number. -/
def leBytes : Nat → Nat → List Byte
  | 0, _ => []
  | k + 1, n => BitVec.ofNat 8 n :: leBytes k (n / 256)

def ofLe : List Byte → Nat
  | [] => 0
  | b :: rest => b.toNat + 256 * ofLe rest

@[simp] theorem length_read : (read m a n).length = n := by simp [read]

@[simp] theorem length_leBytes (k n : Nat) : (leBytes k n).length = k := by
  induction k generalizing n with
  | zero => rfl
  | succ k ih => simp [leBytes, ih]

theorem ofLe_leBytes (k n : Nat) : ofLe (leBytes k n) = n % 256 ^ k := by
  induction k generalizing n with
  | zero => simp [leBytes, ofLe, Nat.mod_one]
  | succ k ih => rw [leBytes, ofLe, ih, Nat.pow_succ', Nat.mod_mul]; simp

/-- A fixed-width value survives being stored and loaded. -/
theorem ofNat_ofLe_leBytes (v : BitVec (8 * k)) : BitVec.ofNat (8 * k) (ofLe (leBytes k v.toNat)) = v := by
  have size : 256 ^ k = 2 ^ (8 * k) := by rw [Nat.pow_mul]
  apply BitVec.eq_of_toNat_eq
  rw [ofLe_leBytes, BitVec.toNat_ofNat, size, Nat.mod_mod, Nat.mod_eq_of_lt v.isLt]

theorem write_outside (m : Memory) (a : Nat) (bytes : List Byte) (x : Nat)
    (outside : x < a ∨ a + bytes.length ≤ x) : write m a bytes x = m x := by
  rw [write, if_neg (by omega)]

theorem write_inside (m : Memory) (a : Nat) (bytes : List Byte) (i : Nat)
    (inside : i < bytes.length) : write m a bytes (a + i) = bytes[i] := by
  rw [write, if_pos (by omega), Nat.add_sub_cancel_left, List.getD_eq_getElem _ _ inside]

theorem read_congr (m m' : Memory) (a n : Nat) (same : ∀ x, a ≤ x → x < a + n → m x = m' x) :
    read m a n = read m' a n := by
  apply List.map_congr_left
  intro i member
  have bound := List.mem_range.mp member
  exact same _ (by omega) (by omega)

theorem read_write (m : Memory) (a : Nat) (bytes : List Byte) :
    read (write m a bytes) a bytes.length = bytes := by
  apply List.ext_getElem
  · simp
  · intro i _ inside
    simp [read, write_inside m a bytes i inside]

theorem read_eq_append (m : Memory) (a k n : Nat) : read m a (k + n) = read m a k ++ read m (a + k) n := by
  simp [read, List.range_add, Nat.add_assoc]

theorem read_succ (m : Memory) (a n : Nat) : read m a (n + 1) = m a :: read m (a + 1) n := by
  rw [Nat.add_comm n 1, read_eq_append]; simp [read]

theorem fieldString_congr (m m' : Memory) (a n : Nat)
    (same : ∀ x, a ≤ x → x < a + n → m x = m' x) : fieldString m a n = fieldString m' a n := by
  rw [fieldString, read_congr m m' a n same, fieldString]

theorem fieldString_succ (m : Memory) (a n : Nat) :
    fieldString m a (n + 1) = if m a = 0#8 then [] else m a :: fieldString m (a + 1) n := by
  rw [fieldString, read_succ, List.takeWhile_cons, fieldString]
  by_cases zero : m a = 0#8 <;> simp [zero]

theorem fieldString_eq_nil (m : Memory) (a n : Nat) (pos : 0 < n) :
    fieldString m a n = [] ↔ m a = 0#8 := by
  obtain ⟨k, rfl⟩ := Nat.exists_eq_succ_of_ne_zero (Nat.ne_of_gt pos)
  rw [Nat.succ_eq_add_one, fieldString_succ]
  split <;> simp_all

/-- Comparing at most `n` characters finds exactly the string in an `n`-byte field,
terminated or not, as long as the other string is not longer than the field. -/
theorem strncmp_eq_zero (m : Memory) (a n : Nat) (s : CString) (short : s.length ≤ n) :
    strncmp (fun i => m (a + i)) s.char n = 0 ↔ fieldString m a n = s.bytes := by
  obtain ⟨bytes, nulFree⟩ := s
  induction n generalizing a bytes with
  | zero =>
    have empty : bytes = [] := List.length_eq_zero_iff.mp (Nat.le_zero.mp short)
    simp [strncmp, fieldString, read, empty]
  | succ n ih =>
    rw [fieldString_succ]
    cases bytes with
    | nil =>
      by_cases zero : m a = 0#8
      · simp [strncmp, CString.char, zero]
      · have positive : (m a).toNat ≠ 0 := fun h => zero (BitVec.eq_of_toNat_eq h)
        simp [strncmp, CString.char, zero, positive]
    | cons b rest =>
      have nonzero : b ≠ 0#8 := fun h => nulFree (by simp [h])
      have restFree : 0#8 ∉ rest := fun h => nulFree (by simp [h])
      have tail := ih (a + 1) rest restFree (by simpa [CString.length] using short)
      by_cases same : m a = b
      · have shifted : strncmp (fun i => m (a + i)) (CString.char ⟨b :: rest, nulFree⟩) (n + 1) =
            strncmp (fun i => m (a + 1 + i)) (CString.char ⟨rest, restFree⟩) n := by
          have left : (fun i => m (a + (i + 1))) = fun i => m (a + 1 + i) := by
            funext i; congr 1; omega
          simp only [strncmp, CString.char, Nat.add_zero, same, left, List.getD_cons_zero, ne_eq,
            not_true_eq_false, ite_false, nonzero]
          rfl
        simp [shifted, tail, same, nonzero]
      · have differ : (m a).toNat ≠ b.toNat := fun h => same (BitVec.eq_of_toNat_eq h)
        have unequal : strncmp (fun i => m (a + i)) (CString.char ⟨b :: rest, nulFree⟩) (n + 1) ≠ 0 := by
          simp [strncmp, CString.char, same]
          omega
        simp only [unequal, false_iff]
        split <;> simp [same]

/-- The bytes of a string, and the terminator where the field has room for one,
decide what the field holds. -/
theorem fieldString_eq (m : Memory) (a n : Nat) (s : CString) (short : s.length ≤ n)
    (agree : ∀ i < n, i ≤ s.length → m (a + i) = s.char i) : fieldString m a n = s.bytes := by
  obtain ⟨bytes, nulFree⟩ := s
  induction n generalizing a bytes with
  | zero =>
    have empty : bytes = [] := List.length_eq_zero_iff.mp (Nat.le_zero.mp short)
    simp [fieldString, read, empty]
  | succ n ih =>
    have first := agree 0 (by omega) (by omega)
    rw [fieldString_succ]
    cases bytes with
    | nil => simpa [CString.char] using first
    | cons b rest =>
      have nonzero : b ≠ 0#8 := fun h => nulFree (by simp [h])
      have restFree : 0#8 ∉ rest := fun h => nulFree (by simp [h])
      have tail := ih (a + 1) rest restFree (by simpa [CString.length] using short)
        (fun i bound within => by
          have next := agree (i + 1) (by omega) (by simpa [CString.length] using within)
          simpa [CString.char, Nat.add_assoc, Nat.add_comm 1 i] using next)
      have head : m a = b := by simpa [CString.char] using first
      simp [head, nonzero, tail]

/-- What a field holds fixes its bytes up to and including the terminator. -/
theorem char_of_fieldString_eq (m : Memory) (a n : Nat) (s : CString)
    (holds : fieldString m a n = s.bytes) (i : Nat) (inField : i < n) (within : i ≤ s.length) :
    m (a + i) = s.char i := by
  obtain ⟨bytes, nulFree⟩ := s
  induction n generalizing a bytes i with
  | zero => omega
  | succ n ih =>
    rw [fieldString_succ] at holds
    by_cases zero : m a = 0#8
    · have empty : bytes = [] := by simpa [zero] using holds.symm
      have first : i = 0 := by simpa [CString.length, empty] using within
      simp [first, zero, empty, CString.char]
    · cases bytes with
      | nil => simp [zero] at holds
      | cons b rest =>
        simp only [zero, if_false, List.cons.injEq] at holds
        cases i with
        | zero => simpa [CString.char] using holds.1
        | succ i =>
          have restFree : 0#8 ∉ rest := fun h => nulFree (by simp [h])
          have tail := ih (a + 1) i (by omega) rest restFree holds.2
            (by simpa [CString.length] using within)
          simpa [CString.char, Nat.add_assoc, Nat.add_comm 1 i] using tail

theorem strcpy_char (m : Memory) (a : Nat) (s : CString) (i : Nat) (within : i ≤ s.length) :
    strcpy m a s (a + i) = s.char i := by
  have inside : i < (s.bytes ++ [0#8]).length := by simpa [CString.length] using Nat.lt_succ_of_le within
  rw [strcpy, write_inside _ _ _ _ inside, CString.char]
  by_cases last : i < s.bytes.length
  · simp [List.getElem_append_left last, last]
  · simp [List.getElem_append_right (Nat.le_of_not_lt last), last]

theorem strcpy_outside (m : Memory) (a : Nat) (s : CString) (x : Nat)
    (outside : x < a ∨ a + s.length < x) : strcpy m a s x = m x := by
  apply write_outside
  simp only [List.length_append, List.length_singleton]
  simp only [CString.length] at outside
  omega

end AsdPre.ByteMemory
