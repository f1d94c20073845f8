import Mathlib

/-! The combinational gain stage of the audio path, at any sample width. The
Verilog builds it at `DATA_WIDTH` = 24; a sample is read as two's complement. -/
namespace AsdPre.AudioGain

/-- `left_out_i` and `right_out_i`: the top bits fall off, zeros come in. -/
def outI (gain : BitVec 2) (x : BitVec w) : BitVec w :=
  match gain.toNat with
  | 1 => x <<< 1
  | 2 => x <<< 2
  | 3 => x <<< 3
  | _ => x

/-- OR over the sign bit and the bits that the shift moves into or past it. -/
def overflowOr (gain : BitVec 2) (x : BitVec w) : Bool :=
  match gain.toNat with
  | 1 => x.extractLsb' (w - 2) 2 != 0#2
  | 2 => x.extractLsb' (w - 3) 3 != 0#3
  | 3 => x.extractLsb' (w - 4) 4 != 0#4
  | _ => false

def overflowAnd (gain : BitVec 2) (x : BitVec w) : Bool :=
  match gain.toNat with
  | 1 => x.extractLsb' (w - 2) 2 == BitVec.allOnes 2
  | 2 => x.extractLsb' (w - 3) 3 == BitVec.allOnes 3
  | 3 => x.extractLsb' (w - 4) 4 == BitVec.allOnes 4
  | _ => true

/-- One channel of the clipping process. -/
def channelOut (gain : BitVec 2) (x : BitVec w) : BitVec w :=
  if x.msb && !overflowAnd gain x then
    -- negative overflow: sign bit alone
    BitVec.intMin w
  else if !x.msb && overflowOr gain x then
    -- positive overflow: every bit but the sign
    BitVec.intMax w
  else
    outI gain x

structure Out (w : Nat) where
  syncOut : Bool
  leftOut : BitVec w
  rightOut : BitVec w
  deriving DecidableEq, Repr

def gain (gain : BitVec 2) (syncIn : Bool) (leftIn rightIn : BitVec w) : Out w :=
  ⟨syncIn, channelOut gain leftIn, channelOut gain rightIn⟩

/-- The value a `w`-bit signed sample takes when it may not leave its range. -/
def clamp (w : Nat) (n : Int) : Int := min (max n (-2 ^ (w - 1))) (2 ^ (w - 1) - 1)

section TopBits

variable {w k : Nat} (x : BitVec w)

theorem toNat_topBits (fits : k ≤ w) :
    (x.extractLsb' (w - k) k).toNat = x.toNat / 2 ^ (w - k) := by
  have whole : 2 ^ w = 2 ^ (w - k) * 2 ^ k := by rw [← Nat.pow_add]; congr 1; omega
  have bound : x.toNat / 2 ^ (w - k) < 2 ^ k := by
    rw [Nat.div_lt_iff_lt_mul (Nat.two_pow_pos _), Nat.mul_comm, ← whole]
    exact x.isLt
  rw [BitVec.extractLsb'_toNat, Nat.shiftRight_eq_div_pow, Nat.mod_eq_of_lt bound]

theorem topBits_eq_zero (fits : k ≤ w) :
    x.extractLsb' (w - k) k = 0#k ↔ x.toNat < 2 ^ (w - k) := by
  rw [← BitVec.toNat_inj, toNat_topBits x fits, BitVec.toNat_ofNat, Nat.zero_mod,
    Nat.div_eq_zero_iff_lt (Nat.two_pow_pos _)]

theorem topBits_eq_allOnes (fits : k ≤ w) :
    x.extractLsb' (w - k) k = BitVec.allOnes k ↔ (2 ^ k - 1) * 2 ^ (w - k) ≤ x.toNat := by
  have whole : 2 ^ w = 2 ^ (w - k) * 2 ^ k := by rw [← Nat.pow_add]; congr 1; omega
  have bound : x.toNat / 2 ^ (w - k) < 2 ^ k := by
    rw [Nat.div_lt_iff_lt_mul (Nat.two_pow_pos _), Nat.mul_comm, ← whole]
    exact x.isLt
  rw [← BitVec.toNat_inj, toNat_topBits x fits, BitVec.toNat_allOnes,
    ← Nat.le_div_iff_mul_le (Nat.two_pow_pos _)]
  omega

theorem toInt_shiftLeft_of_bounds (n : Nat) (pos : 0 < w)
    (low : -2 ^ (w - 1) ≤ x.toInt * 2 ^ n) (high : x.toInt * 2 ^ n < 2 ^ (w - 1)) :
    (x <<< n).toInt = x.toInt * 2 ^ n := by
  have product : x <<< n = BitVec.ofInt w (x.toInt * 2 ^ n) := by
    rw [BitVec.shiftLeft_eq_mul_twoPow, BitVec.ofInt_mul, BitVec.ofInt_toInt]
    congr 1
    apply BitVec.eq_of_toNat_eq
    simp [BitVec.toNat_twoPow, BitVec.toNat_ofInt]
    rfl
  rw [product, BitVec.toInt_ofInt_eq_self pos low high]

end TopBits

/-- The clipping rule for a shift by `n`, stated on the sample's numeric value. -/
theorem clip_shift (x : BitVec w) (n : Nat) (fits : n + 1 ≤ w) (range : n = 1 ∨ n = 2 ∨ n = 3) :
    (if x.msb && !(x.extractLsb' (w - (n + 1)) (n + 1) == BitVec.allOnes (n + 1)) then
        BitVec.intMin w
      else if !x.msb && (x.extractLsb' (w - (n + 1)) (n + 1) != 0#(n + 1)) then BitVec.intMax w
      else x <<< n).toInt = clamp w (x.toInt * 2 ^ n) := by
  have pos : 0 < w := by omega
  have zeros := topBits_eq_zero x fits
  have ones := topBits_eq_allOnes x fits
  have half : (2 : Nat) ^ (w - 1) = 2 ^ n * 2 ^ (w - (n + 1)) := by
    rw [← Nat.pow_add]; congr 1; omega
  have full : (2 : Nat) ^ w = 2 * 2 ^ (w - 1) := by rw [← Nat.pow_succ']; congr 1; omega
  have halfInt : (2 : Int) ^ (w - 1) = ((2 ^ (w - 1) : Nat) : Int) := by norm_cast
  have value := BitVec.toInt_eq_toNat_cond x
  have shifted := toInt_shiftLeft_of_bounds x n pos
  have bound := x.isLt
  rw [BitVec.msb_eq_decide, clamp]
  generalize 2 ^ (w - (n + 1)) = unit at *
  rcases range with rfl | rfl | rfl
  all_goals
    split
    next negative =>
      simp only [Bool.and_eq_true, decide_eq_true_eq, Bool.not_eq_true', beq_eq_false_iff_ne,
        ne_eq, ones] at negative
      rw [BitVec.toInt_intMin_of_pos pos]
      split at value <;> omega
    next regular =>
      simp only [Bool.and_eq_true, decide_eq_true_eq, Bool.not_eq_true', beq_eq_false_iff_ne,
        ne_eq, ones] at regular
      split
      next positive =>
        simp only [Bool.and_eq_true, Bool.not_eq_true', decide_eq_false_iff_not, bne_iff_ne,
          ne_eq, zeros] at positive
        rw [BitVec.toInt_intMax]
        split at value <;> omega
      next within =>
        simp only [Bool.and_eq_true, Bool.not_eq_true', decide_eq_false_iff_not, bne_iff_ne,
          ne_eq, zeros] at within
        rw [shifted (by split at value <;> omega) (by split at value <;> omega)]
        split at value <;> omega

/-- A channel is a saturating left shift at every width that has room for the
largest shift and a sign. -/
theorem toInt_channelOut (g : BitVec 2) (x : BitVec w) (wide : 4 ≤ w) :
    (channelOut g x).toInt = clamp w (x.toInt * 2 ^ g.toNat) := by
  have small : g.toNat < 4 := g.isLt
  have cases : g.toNat = 0 ∨ g.toNat = 1 ∨ g.toNat = 2 ∨ g.toNat = 3 := by omega
  rcases cases with h | h | h | h
  · have low := BitVec.le_toInt x
    have high := BitVec.toInt_lt (x := x)
    simp only [channelOut, overflowAnd, overflowOr, outI, h, clamp]
    simp
    omega
  · simpa only [channelOut, overflowAnd, overflowOr, outI, h] using
      clip_shift x 1 (by omega) (by simp)
  · simpa only [channelOut, overflowAnd, overflowOr, outI, h] using
      clip_shift x 2 (by omega) (by simp)
  · simpa only [channelOut, overflowAnd, overflowOr, outI, h] using
      clip_shift x 3 (by omega) (by simp)

/-- Both channels of the module, each from its own input alone. -/
theorem gain_saturates (g : BitVec 2) (syncIn : Bool) (leftIn rightIn : BitVec w) (wide : 4 ≤ w) :
    (gain g syncIn leftIn rightIn).leftOut.toInt =
      min (max (leftIn.toInt * 2 ^ g.toNat) (-2 ^ (w - 1))) (2 ^ (w - 1) - 1) ∧
    (gain g syncIn leftIn rightIn).rightOut.toInt =
      min (max (rightIn.toInt * 2 ^ g.toNat) (-2 ^ (w - 1))) (2 ^ (w - 1) - 1) ∧
    (gain g syncIn leftIn rightIn).syncOut = syncIn :=
  ⟨toInt_channelOut g leftIn wide, toInt_channelOut g rightIn wide, rfl⟩

/-- The narrowest width, at its largest shift: −1 just fits, 1 does not. -/
theorem gain_saturates_narrow :
    4 ≤ 4 ∧ (gain 3#2 true (-1 : BitVec 4) 1#4).leftOut.toInt = -8 ∧
      (gain 3#2 true (-1 : BitVec 4) 1#4).rightOut.toInt = 7 := by
  obtain ⟨left, right, _⟩ := gain_saturates 3#2 true (-1 : BitVec 4) 1#4 (by decide)
  exact ⟨by decide, left.trans (by decide), right.trans (by decide)⟩

end AsdPre.AudioGain
