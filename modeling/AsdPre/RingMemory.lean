import Mathlib

/-! A circular region of a memory: the address after the last one is the first. What
is written in front of a position does not reach what lies behind it, as long as both
together fit into the region. -/
namespace AsdPre.RingMemory

/-- The addresses from `base` up to `base + size`. -/
structure Region where
  base : Nat
  size : Nat
  positive : 0 < size

namespace Region

variable (r : Region) {α : Type u}

def Mem (a : Nat) : Prop := r.base ≤ a ∧ a < r.base + r.size

instance : Decidable (r.Mem a) := inferInstanceAs (Decidable (_ ∧ _))

/-- The address `i` places after `a`. -/
def after (a i : Nat) : Nat := r.base + (a - r.base + i) % r.size

/-- How far `x` lies after `a`. -/
def distance (a x : Nat) : Nat := (x + r.size - a) % r.size

def read (m : Nat → α) (a n : Nat) : List α := (List.range n).map fun i => m (r.after a i)

def write (m : Nat → α) (a : Nat) (data : List α) : Nat → α :=
  fun x => if r.Mem x then data.getD (r.distance a x) (m x) else m x

theorem after_mem (a i : Nat) : r.Mem (r.after a i) := by
  have small := Nat.mod_lt (a - r.base + i) r.positive
  simp only [Mem, after]
  omega

theorem after_zero {a : Nat} (inside : r.Mem a) : r.after a 0 = a := by
  simp only [Mem] at inside
  rw [after, Nat.add_zero, Nat.mod_eq_of_lt (by omega)]
  omega

theorem after_after (a i j : Nat) : r.after (r.after a i) j = r.after a (i + j) := by
  simp only [after, Nat.add_sub_cancel_left, Nat.mod_add_mod, Nat.add_assoc]

theorem after_wrapped {a i : Nat} (inside : r.Mem a) (long : r.base + r.size ≤ a + i)
    (once : i ≤ r.size) : r.after a i = a + i - r.size := by
  simp only [Mem] at inside
  rw [after, Nat.mod_eq_sub_mod (by omega), Nat.mod_eq_of_lt (by omega)]
  omega

theorem distance_after {a : Nat} (inside : r.Mem a) (i : Nat) :
    r.distance a (r.after a i) = i % r.size := by
  simp only [Mem] at inside
  have shift : r.after a i + r.size - a = (a - r.base + i) % r.size + (r.size - (a - r.base)) := by
    simp only [after]
    omega
  have whole : a - r.base + i + (r.size - (a - r.base)) = i + r.size := by omega
  rw [distance, shift, Nat.mod_add_mod, whole, Nat.add_mod_right]

/-- Seen from a position in the region, two places on the same lap are as far apart as
their offsets. -/
theorem distance_after_after {a : Nat} (i j : Nat) (order : i ≤ j) (lap : j < i + r.size) :
    r.distance (r.after a i) (r.after a j) = j - i := by
  have split : r.after a j = r.after (r.after a i) (j - i) := by
    rw [after_after, Nat.add_sub_cancel' order]
  rw [split, distance_after r (after_mem r a i), Nat.mod_eq_of_lt (by omega)]

@[simp] theorem length_read (m : Nat → α) (a n : Nat) : (r.read m a n).length = n := by simp [read]

theorem read_eq_append (m : Nat → α) (a k n : Nat) :
    r.read m a (k + n) = r.read m a k ++ r.read m (r.after a k) n := by
  simp [read, List.range_add, after_after]

theorem read_congr {m m' : Nat → α} {a n : Nat}
    (same : ∀ i < n, m (r.after a i) = m' (r.after a i)) : r.read m a n = r.read m' a n := by
  apply List.map_congr_left
  intro i member
  exact same i (List.mem_range.mp member)

/-- A part of what is read is read from there. -/
theorem read_part {m : Nat → α} {a n : Nat} {data : List α} (whole : r.read m a n = data)
    (k c : Nat) (within : k + c ≤ n) : r.read m (r.after a k) c = (data.drop k).take c := by
  have cut : r.read m a n =
      r.read m a k ++ (r.read m (r.after a k) c ++ r.read m (r.after (r.after a k) c) (n - k - c)) := by
    rw [← read_eq_append, ← read_eq_append]
    congr 1
    omega
  rw [← whole, cut, List.drop_left' (by simp), List.take_left' (by simp)]

theorem write_after {m : Nat → α} {a : Nat} (inside : r.Mem a) (data : List α) {i : Nat}
    (lap : i < r.size) : r.write m a data (r.after a i) = data.getD i (m (r.after a i)) := by
  rw [write, if_pos (after_mem r a i), distance_after r inside, Nat.mod_eq_of_lt lap]

theorem write_outside (m : Nat → α) (a : Nat) (data : List α) {x : Nat} (outside : ¬ r.Mem x) :
    r.write m a data x = m x := if_neg outside

/-- What has been written is read back. -/
theorem read_write {m : Nat → α} {a : Nat} (inside : r.Mem a) (data : List α)
    (fits : data.length ≤ r.size) : r.read (r.write m a data) a data.length = data := by
  apply List.ext_getElem
  · simp
  · intro i _ bound
    simp only [read, List.getElem_map, List.getElem_range]
    rw [write_after r inside data (by omega), List.getD_eq_getElem _ _ bound]

/-- Writing from `k` places on leaves alone what lies before, unless it comes round. -/
theorem read_write_before {m : Nat → α} {a : Nat} (k : Nat) (data : List α) (i n : Nat)
    (before : i + n ≤ k) (fits : k + data.length ≤ r.size) :
    r.read (r.write m (r.after a k) data) (r.after a i) n = r.read m (r.after a i) n := by
  apply read_congr
  intro j bound
  rw [after_after, write, if_pos (after_mem r a _)]
  have lap : r.after a (i + j) = r.after (r.after a k) (r.size + (i + j) - k) := by
    rw [after_after, after, after, Nat.add_sub_cancel' (by omega),
      show a - r.base + (r.size + (i + j)) = a - r.base + (i + j) + r.size by omega,
      Nat.add_mod_right]
  have far : r.distance (r.after a k) (r.after a (i + j)) = r.size + (i + j) - k := by
    rw [lap, distance_after r (after_mem r a k), Nat.mod_eq_of_lt (by omega)]
  rw [far, List.getD_eq_default _ _ (by omega)]

end Region

end AsdPre.RingMemory
