import Mathlib

/-! Serial words. A shift register takes one bit per clock edge at its low end and
gives one away at its high end, so a word travels most significant bit first.
Nothing here depends on a particular clock or on the width of the word. -/
namespace AsdPre.ShiftRegister

/-- The bits of a word in the order in which they are on the wire. -/
def wireBits (x : BitVec w) : List Bool := List.ofFn fun i : Fin w => x.getMsbD i

def shiftIn (x : BitVec w) (bits : List Bool) : BitVec w := bits.foldl BitVec.shiftConcat x

/-- The complete words of a bit string; a trailing partial word is dropped. -/
def words (w : Nat) (bits : List Bool) : List (BitVec w) :=
  (List.range (bits.length / w)).map fun i => shiftIn 0#w ((bits.drop (w * i)).take w)

@[simp] theorem length_wireBits (x : BitVec w) : (wireBits x).length = w := by simp [wireBits]

@[simp] theorem length_words : (words w bits).length = bits.length / w := by simp [words]

@[simp] theorem shiftIn_nil (x : BitVec w) : shiftIn x [] = x := rfl

@[simp] theorem shiftIn_cons (x : BitVec w) (b : Bool) (bits : List Bool) :
    shiftIn x (b :: bits) = shiftIn (x.shiftConcat b) bits := rfl

theorem shiftIn_append (x : BitVec w) (as bs : List Bool) :
    shiftIn x (as ++ bs) = shiftIn (shiftIn x as) bs := by simp [shiftIn]

theorem shiftIn_concat (x : BitVec w) (bits : List Bool) (b : Bool) :
    shiftIn x (bits ++ [b]) = (shiftIn x bits).shiftConcat b := by simp [shiftIn]

/-- Each bit moves up one place per edge, and the newest bit is the lowest. -/
theorem getLsbD_shiftIn (x : BitVec w) (bits : List Bool) (i : Nat) (bound : i < w) :
    (shiftIn x bits).getLsbD i =
      if i < bits.length then bits.getD (bits.length - 1 - i) false
      else x.getLsbD (i - bits.length) := by
  induction bits using List.reverseRecOn generalizing i with
  | nil => simp
  | append_singleton bits b ih =>
    rw [shiftIn_concat, BitVec.getLsbD_shiftConcat]
    cases i with
    | zero => simp [bound]
    | succ i =>
      have index : bits.length - (i + 1) = bits.length - 1 - i := by omega
      by_cases inside : i < bits.length
      · have fits : bits.length - 1 - i < bits.length := by omega
        simp [ih i (by omega), inside, bound, index, fits, List.getElem?_append_left fits]
      · simp [ih i (by omega), inside, bound]

/-- After a full word has passed, nothing of the previous contents is left. -/
theorem shiftIn_eq_of_length (x y : BitVec w) (bits : List Bool) (full : w ≤ bits.length) :
    shiftIn x bits = shiftIn y bits := by
  apply BitVec.eq_of_getLsbD_eq
  intro i bound
  have inside : i < bits.length := by omega
  simp only [getLsbD_shiftIn _ _ _ bound, if_pos inside]

/-- A register that has taken a whole word from the wire holds that word. -/
theorem shiftIn_wireBits (x y : BitVec w) : shiftIn x (wireBits y) = y := by
  apply BitVec.eq_of_getLsbD_eq
  intro i bound
  have index : w - 1 - (w - 1 - i) = i := by omega
  have high : w - 1 - i < w := by omega
  simp only [getLsbD_shiftIn _ _ _ bound, length_wireBits, if_pos bound]
  simp [wireBits, high, BitVec.getMsbD_eq_getLsbD, index]

/-- A register that shifts out past its width sends zeros. -/
theorem wireBits_append_zeros (x : BitVec w) (k : Nat) :
    wireBits x ++ List.replicate k false = (List.range (w + k)).map x.getMsbD := by
  apply List.ext_getElem
  · simp
  · intro i _ bound
    by_cases inside : i < w
    · simp [wireBits, inside, List.getElem_append_left]
    · have outside : ¬ i < (wireBits x).length := by simpa using inside
      simp [List.getElem_append_right (Nat.le_of_not_lt outside), BitVec.getMsbD, inside]

/-- After `n` edges with nothing coming in, bit `n` is at the output. -/
theorem msb_shiftIn_zeros (x : BitVec w) (n : Nat) (pos : 0 < w) :
    (shiftIn x (List.replicate n false)).msb = x.getMsbD n := by
  have top : w - 1 < w := by omega
  rw [BitVec.msb_eq_getLsbD_last, getLsbD_shiftIn _ _ _ top, List.length_replicate]
  split
  · have beyond : ¬ n < w := by omega
    simp [BitVec.getMsbD, beyond]
  · have inside : n < w := by omega
    simp [BitVec.getMsbD_eq_getLsbD, inside]

theorem words_append (chunk rest : List Bool) (size : chunk.length = w) (pos : 0 < w) :
    words w (chunk ++ rest) = shiftIn 0#w chunk :: words w rest := by
  have count : (chunk ++ rest).length / w = rest.length / w + 1 := by
    rw [List.length_append, size, Nat.add_comm, Nat.add_div_right _ pos]
  rw [words, count, List.range_succ_eq_map, List.map_cons, List.map_map, words]
  congr 1
  · simp [← size]
  · apply List.map_congr_left
    intro i _
    have skip : w * (i + 1) = chunk.length + w * i := by rw [size]; ring
    simp [skip]

/-- The words of a bit string do not change until the next word is complete. -/
theorem words_concat_partial (bits : List Bool) (b : Bool)
    (short : bits.length % w + 1 < w) : words w (bits ++ [b]) = words w bits := by
  have pos : 0 < w := by omega
  have count : (bits.length + 1) / w = bits.length / w := by
    have split := Nat.div_add_mod bits.length w
    rw [Nat.div_eq_iff pos]
    constructor
    · rw [Nat.mul_comm]; omega
    · have := Nat.mul_comm w (bits.length / w); omega
  simp only [words, List.length_append, List.length_singleton, count]
  apply List.map_congr_left
  intro i member
  have before : w * i + w ≤ bits.length := by
    have := Nat.mul_le_mul_left w (Nat.succ_le_of_lt (List.mem_range.mp member))
    have := Nat.mul_div_le bits.length w
    rw [Nat.mul_succ] at *; omega
  rw [List.drop_append_of_le_length (by omega), List.take_append_of_le_length (by simp; omega)]

/-- The bit that completes a word appends it: the last `w` bits, whatever was
shifted before them. -/
theorem words_concat_complete (bits : List Bool) (b : Bool)
    (last : bits.length % w + 1 = w) :
    words w (bits ++ [b]) = words w bits ++ [shiftIn 0#w (bits ++ [b])] := by
  have pos : 0 < w := by omega
  have split := Nat.div_add_mod bits.length w
  have count : (bits.length + 1) / w = bits.length / w + 1 := by
    have whole : bits.length + 1 = w * (bits.length / w + 1) := by rw [Nat.mul_succ]; omega
    rw [whole, Nat.mul_div_cancel_left _ pos]
  simp only [words, List.length_append, List.length_singleton, count, List.range_succ,
    List.map_append, List.map_singleton]
  congr 1
  · apply List.map_congr_left
    intro i member
    have before : w * i + w ≤ bits.length := by
      have := Nat.mul_le_mul_left w (Nat.succ_le_of_lt (List.mem_range.mp member))
      rw [Nat.mul_succ] at *; omega
    rw [List.drop_append_of_le_length (by omega), List.take_append_of_le_length (by simp; omega)]
  · have recent : ((bits ++ [b]).drop (w * (bits.length / w))).length = w := by simp; omega
    have parts := List.take_append_drop (w * (bits.length / w)) (bits ++ [b])
    rw [List.take_of_length_le (Nat.le_of_eq recent)]
    conv_rhs => rw [← parts, shiftIn_append]
    rw [shiftIn_eq_of_length 0#w _ _ (Nat.le_of_eq recent.symm)]

theorem words_take (bits : List Bool) (n : Nat) (bound : n ≤ bits.length) (pos : 0 < w) :
    words w (bits.take n) = (words w bits).take (n / w) := by
  have fewer : n / w ≤ bits.length / w := Nat.div_le_div_right bound
  simp only [words, ← List.map_take, List.take_range, List.length_take, Nat.min_eq_left bound,
    Nat.min_eq_left fewer]
  apply List.map_congr_left
  intro i member
  have before : w * i + w ≤ n := by
    have := Nat.mul_le_mul_left w (Nat.succ_le_of_lt (List.mem_range.mp member))
    have := Nat.mul_div_le n w
    rw [Nat.mul_succ] at *; omega
  rw [List.drop_take, List.take_take, Nat.min_eq_left (by omega)]

/-- A wire that shows bit `n % w` of word `n / w` at time `n` carries these words. -/
theorem words_range (word : Nat → BitVec w) (n : Nat) (pos : 0 < w) :
    words w ((List.range n).map fun i => (word (i / w)).getMsbD (i % w)) =
      (List.range (n / w)).map word := by
  simp only [words, List.length_map, List.length_range]
  apply List.map_congr_left
  intro i member
  have whole : w * i + w ≤ n := by
    have := Nat.mul_le_mul_left w (Nat.succ_le_of_lt (List.mem_range.mp member))
    have := Nat.mul_div_le n w
    rw [Nat.mul_succ] at *; omega
  have piece : (((List.range n).map fun i => (word (i / w)).getMsbD (i % w)).drop (w * i)).take w =
      wireBits (word i) := by
    apply List.ext_getElem
    · simp; omega
    · intro j _ inside
      have small : j < w := by simpa using inside
      have quotient : (w * i + j) / w = i := by
        rw [Nat.mul_add_div pos, Nat.div_eq_of_lt small, Nat.add_zero]
      simp [wireBits, quotient, Nat.mod_eq_of_lt small]
  rw [piece, shiftIn_wireBits]

end AsdPre.ShiftRegister
