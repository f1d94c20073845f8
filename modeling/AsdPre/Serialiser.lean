import AsdPre.AudioPath

/-! The serialiser on its own, with any input at each falling edge. The path before
it gives a transfer pulse every 64 edges; here a pulse may come at any edge, or not
at all, and the output is what the latest pulse has started. -/
namespace AsdPre.Serialiser

open ShiftRegister AudioPath

/-- The inputs at a falling edge of `bck`. -/
structure Edge where
  sync : Bool
  left : Sample
  right : Sample
  deriving DecidableEq, Repr

/-- The registers after edge `t`, counted from 0. -/
def after (init : ParToSer) (edges : Nat → Edge) : Nat → ParToSer
  | 0 => init.negedge (edges 0).sync (edges 0).left (edges 0).right
  | t + 1 =>
    (after init edges t).negedge (edges (t + 1)).sync (edges (t + 1)).left (edges (t + 1)).right

/-- The counter's one bit `n` edges after it was set. -/
def counter (n : Nat) : BitVec 32 := shiftIn 1#32 (List.replicate n false)

/-- The registers `d` edges after a pulse that found `left`, if `right` is on the
input 32 edges after it. -/
def elapsed (left right : Sample) (d : Nat) : ParToSer :=
  if d < 32 then ⟨true, shiftIn left (List.replicate d false), counter d⟩
  else ⟨false, shiftIn right (List.replicate (d - 32) false), counter d⟩

theorem counter_succ (n : Nat) : (counter n).shiftConcat false = counter (n + 1) := by
  rw [counter, counter, List.replicate_succ', shiftIn_concat]

/-- The bit is at the end of the register once, and then gone. -/
theorem counter_expired (n : Nat) : (counter n)[31] = decide (n = 31) := by
  rw [← BitVec.getLsbD_eq_getElem, counter, getLsbD_shiftIn _ _ _ (by decide),
    List.length_replicate]
  split
  next gone =>
    have later : n ≠ 31 := by omega
    simp [later]
  next inside =>
    have lowest : (31 - n = 0) = (n = 31) := by
      apply propext
      omega
    simp [BitVec.getLsbD_one, lowest]

/-- After a pulse, an edge without one moves on by one. -/
theorem elapsed_step (left right right' : Sample) (d : Nat) (loaded : d + 1 = 32 → right' = right) :
    (elapsed left right d).negedge false left' right' = elapsed left right (d + 1) := by
  have expired := counter_expired d
  rcases Nat.lt_trichotomy d 31 with early | rfl | late
  · have before : d < 32 ∧ d + 1 < 32 ∧ d ≠ 31 := by omega
    simp [elapsed, ParToSer.negedge, before, expired, counter_succ, List.replicate_succ',
      shiftIn_concat]
  · simp [elapsed, ParToSer.negedge, expired, counter_succ, loaded]
  · have behind : ¬ d < 32 ∧ ¬ d + 1 < 32 ∧ d ≠ 31 := by omega
    have count : d + 1 - 32 = d - 32 + 1 := by omega
    simp [elapsed, ParToSer.negedge, behind, expired, counter_succ, count, List.replicate_succ',
      shiftIn_concat]

theorem after_sync (init : ParToSer) (edges : Nat → Edge) (s : Nat)
    (synced : (edges s).sync = true) (right : Sample) :
    after init edges s = elapsed (edges s).left right 0 := by
  cases s with
  | zero => simp [after, ParToSer.negedge, synced, elapsed, counter]
  | succ s => simp [after, ParToSer.negedge, synced, elapsed, counter]

theorem after_latest (init : ParToSer) (edges : Nat → Edge) (s d : Nat)
    (synced : (edges s).sync = true)
    (latest : ∀ k, s < k → k ≤ s + d → (edges k).sync = false) :
    after init edges (s + d) = elapsed (edges s).left (edges (s + 32)).right d := by
  induction d with
  | zero => exact after_sync init edges s synced _
  | succ d ih =>
    have quiet := latest (s + d + 1) (by omega) (by omega)
    rw [← Nat.add_assoc, after, ih fun k low high => latest k low (by omega), quiet]
    apply elapsed_step
    rintro loads
    rw [Nat.add_assoc, loads]

theorem lrck_elapsed (left right : Sample) (d : Nat) :
    (elapsed left right d).lrck = decide (d < 32) := by
  by_cases first : d < 32 <;> simp [elapsed, first]

theorem dout_elapsed (left right : Sample) (d : Nat) :
    (elapsed left right d).dout =
      if d < 24 then left.getLsbD (23 - d) else if d < 32 then false
      else if d < 56 then right.getLsbD (55 - d) else false := by
  by_cases first : d < 32
  · rw [elapsed, if_pos first, ParToSer.dout, msb_shiftIn_zeros _ _ (by decide)]
    by_cases inside : d < 24
    · simp [BitVec.getMsbD_eq_getLsbD, inside]
    · simp [BitVec.getMsbD_eq_getLsbD, inside, first]
  · rw [elapsed, if_neg first, ParToSer.dout, msb_shiftIn_zeros _ _ (by decide)]
    have past : ¬ d < 24 := by omega
    by_cases inside : d < 56
    · have offset : d - 32 < 24 ∧ 23 - (d - 32) = 55 - d := by omega
      simp [BitVec.getMsbD_eq_getLsbD, first, past, inside, offset]
    · have offset : ¬ d - 32 < 24 := by omega
      simp [BitVec.getMsbD_eq_getLsbD, first, past, inside, offset]

/-- Whatever came before it, and however long the next one takes, the latest pulse
alone decides both outputs. -/
theorem output_of_latest_sync (init : ParToSer) (edges : Nat → Edge) (s t : Nat) (reached : s ≤ t)
    (synced : (edges s).sync = true) (latest : ∀ k, s < k → k ≤ t → (edges k).sync = false) :
    (after init edges t).lrck = decide (t - s < 32) ∧
    (after init edges t).dout =
      if t - s < 24 then (edges s).left.getLsbD (23 - (t - s))
      else if t - s < 32 then false
      else if t - s < 56 then (edges (s + 32)).right.getLsbD (55 - (t - s))
      else false := by
  obtain ⟨d, rfl⟩ := Nat.exists_eq_add_of_le reached
  rw [after_latest init edges s d synced latest, Nat.add_sub_cancel_left]
  exact ⟨lrck_elapsed _ _ d, dout_elapsed _ _ d⟩

/-- Pulses at edges 0 and 3 only: the second cuts the first slot short. -/
def twoPulses (t : Nat) : Edge := ⟨t = 0 ∨ t = 3, 0x800000, 0x800001⟩

theorem output_of_latest_sync_two_pulses :
    (after ⟨true, 0, 0x80000000⟩ twoPulses 58).lrck = false ∧
      (after ⟨true, 0, 0x80000000⟩ twoPulses 58).dout = true := by
  have quiet : ∀ k, 3 < k → k ≤ 58 → (twoPulses k).sync = false := by
    intro k low _
    have neither : ¬ (k = 0 ∨ k = 3) := by omega
    simp [twoPulses, neither]
  exact output_of_latest_sync ⟨true, 0, 0x80000000⟩ twoPulses 3 58 (by decide) (by decide) quiet

end AsdPre.Serialiser
