import AsdPre.Firmware
import AsdPre.Traces

/-! The rotary encoder as a counter. Its two contacts go through the cycle 00, 10,
11, 01; every edge of either contact brings one sample to `updateVol`, and some
samples may be repeated or missed. The winding number of the samples is compared
with the volume, which counts it modulo nothing but stops at two limits. -/
namespace AsdPre.Encoder

open Firmware

/-- The levels of the contacts at one interrupt. -/
structure Contacts where
  a : Bool
  b : Bool
  deriving DecidableEq, Repr

def Contacts.phase (c : Contacts) : Int := encoderPhase c.a c.b

def turn (d : Device) (samples : List Contacts) : Device :=
  Traces.run (fun d c => updateVol d c.a c.b) d samples

/-- From a phase to a phase the short way round: forwards is 1, backwards −1, and the
opposite phase −2. -/
def displacement (last phase : Int) : Int := (phase - last).bmod 4

/-- The net number of phases turned. -/
def turned (last : Int) : List Contacts → Int
  | [] => 0
  | c :: rest => displacement last c.phase + turned c.phase rest

/-- What one sample may do to the volume. -/
structure Moves (d : Device) (c : Contacts) (d' : Device) : Prop where
  synchronised : d'.lastPhase = c.phase
  forwards : displacement d.lastPhase c.phase = 1 → d'.volume.toInt =
    if d.volume.toInt ≤ volMin - volSlack then d.volume.toInt else d.volume.toInt - 1
  backwards : displacement d.lastPhase c.phase = -1 → d'.volume.toInt =
    if d.volume.toInt ≥ volMax + volSlack then d.volume.toInt else d.volume.toInt + 1
  otherwise : displacement d.lastPhase c.phase ≠ 1 → displacement d.lastPhase c.phase ≠ -1 →
    d'.volume = d.volume

/-- A sample that is no jump, and whose step no limit holds back. -/
def Free (d : Device) (c : Contacts) : Prop :=
  displacement d.lastPhase c.phase ≠ -2 ∧
    (displacement d.lastPhase c.phase = 1 → d.volume.toInt > volMin - volSlack) ∧
    (displacement d.lastPhase c.phase = -1 → d.volume.toInt < volMax + volSlack)

/-- What `last_phase` can hold: it starts at 0 and is only assigned phases. -/
def IsPhase (phase : Int) : Prop := 0 ≤ phase ∧ phase < 4

theorem isPhase_phase (c : Contacts) : IsPhase c.phase := by
  obtain ⟨a, b⟩ := c
  cases a <;> cases b <;> simp [IsPhase, Contacts.phase, encoderPhase]

section Arithmetic

/-! The two remainders of the source, as displacements. -/

variable {last phase : Int}

theorem displacement_cases (isLast : IsPhase last) (isPhase : IsPhase phase) :
    (displacement last phase = 1 ∧ (last + 1).tmod 4 = phase ∧ (phase + 1).tmod 4 ≠ last) ∨
    (displacement last phase = -1 ∧ (last + 1).tmod 4 ≠ phase ∧ (phase + 1).tmod 4 = last) ∨
    ((displacement last phase = 0 ∨ displacement last phase = -2) ∧
      (last + 1).tmod 4 ≠ phase ∧ (phase + 1).tmod 4 ≠ last) := by
  have lasts : last = 0 ∨ last = 1 ∨ last = 2 ∨ last = 3 := by
    obtain ⟨_, _⟩ := isLast
    omega
  have phases : phase = 0 ∨ phase = 1 ∨ phase = 2 ∨ phase = 3 := by
    obtain ⟨_, _⟩ := isPhase
    omega
  rcases lasts with rfl | rfl | rfl | rfl <;> rcases phases with rfl | rfl | rfl | rfl <;>
    simp [displacement]

theorem displacement_emod (last : Int) (isPhase : IsPhase phase) :
    (last + displacement last phase) % 4 = phase := by
  obtain ⟨low, high⟩ := isPhase
  have residue := Int.bmod_emod (x := phase - last) (m := 4)
  rw [displacement]
  omega

theorem toInt_pred (v : BitVec 16) (above : v.toInt > volMin - volSlack) :
    (v - 1).toInt = v.toInt - 1 := by
  have high := BitVec.toInt_lt (x := v)
  have limit : volMin - volSlack = -100 := rfl
  rw [BitVec.toInt_sub]
  apply Int.bmod_eq_of_le <;> simp <;> omega

theorem toInt_succ (v : BitVec 16) (below : v.toInt < volMax + volSlack) :
    (v + 1).toInt = v.toInt + 1 := by
  have low := BitVec.le_toInt v
  have limit : volMax + volSlack = 1700 := rfl
  rw [BitVec.toInt_add]
  apply Int.bmod_eq_of_le <;> simp <;> omega

end Arithmetic

theorem updateVol_volume (d : Device) (c : Contacts) :
    (updateVol d c.a c.b).volume = turnVolume d c.phase := by
  obtain ⟨_, _, changed⟩ := setVol_eq d (turnVolume d c.phase)
  simp only [updateVol, Contacts.phase] at changed ⊢
  rw [changed]

theorem updateVol_moves (d : Device) (c : Contacts) (isLast : IsPhase d.lastPhase) :
    Moves d c (updateVol d c.a c.b) := by
  have volume := updateVol_volume d c
  rcases displacement_cases isLast (isPhase_phase c) with
    ⟨by1, ahead, notBehind⟩ | ⟨by1, notAhead, behind⟩ | ⟨by0, notAhead, notBehind⟩
  · refine ⟨rfl, fun _ => ?_, fun wrong => ?_, fun wrong => absurd by1 wrong⟩
    · rw [volume, turnVolume]
      simp only [ahead, notBehind, false_and, if_false, true_and]
      split
      next above => rw [toInt_pred _ above, if_neg (by omega)]
      next held => rw [if_pos (by omega)]
    · rw [by1] at wrong
      omega
  · refine ⟨rfl, fun wrong => ?_, fun _ => ?_, fun _ wrong => absurd by1 wrong⟩
    · rw [by1] at wrong
      omega
    · rw [volume, turnVolume]
      simp only [notAhead, behind, false_and, if_false, true_and]
      split
      next below => rw [toInt_succ _ below, if_neg (by omega)]
      next held => rw [if_pos (by omega)]
  · refine ⟨rfl, fun wrong => ?_, fun wrong => ?_, fun _ _ => ?_⟩
    · omega
    · omega
    · rw [volume, turnVolume]
      simp [notAhead, notBehind]

@[simp] theorem turn_cons (d : Device) (c : Contacts) (rest : List Contacts) :
    turn d (c :: rest) = turn (updateVol d c.a c.b) rest := by simp only [turn, Traces.run_cons]

theorem isPhase_turn (d : Device) (samples : List Contacts) (isLast : IsPhase d.lastPhase) :
    IsPhase (turn d samples).lastPhase := by
  induction samples generalizing d with
  | nil => exact isLast
  | cons c rest ih =>
    rw [turn_cons]
    exact ih (updateVol d c.a c.b) (isPhase_phase c)

theorem turn_append (d : Device) (before rest : List Contacts) :
    turn d (before ++ rest) = turn (turn d before) rest := Traces.run_append ..

/-- A step never takes the volume further out. -/
theorem moves_bounds {d d' : Device} {c : Contacts} (moves : Moves d c d') :
    min d.volume.toInt (volMin - volSlack) ≤ d'.volume.toInt ∧
      d'.volume.toInt ≤ max d.volume.toInt (volMax + volSlack) := by
  by_cases ahead : displacement d.lastPhase c.phase = 1
  · have volume := moves.forwards ahead
    split at volume <;> omega
  · by_cases behind : displacement d.lastPhase c.phase = -1
    · have volume := moves.backwards behind
      split at volume <;> omega
    · rw [moves.otherwise ahead behind]
      omega

theorem turn_bounds (d : Device) (samples : List Contacts) (isLast : IsPhase d.lastPhase) :
    min d.volume.toInt (volMin - volSlack) ≤ (turn d samples).volume.toInt ∧
      (turn d samples).volume.toInt ≤ max d.volume.toInt (volMax + volSlack) := by
  induction samples generalizing d with
  | nil => exact ⟨min_le_left _ _, le_max_left _ _⟩
  | cons c rest ih =>
    have first := moves_bounds (updateVol_moves d c isLast)
    have later := ih (updateVol d c.a c.b) (isPhase_phase c)
    rw [turn_cons]
    omega

theorem turn_lastPhase (d : Device) (samples : List Contacts) (isLast : IsPhase d.lastPhase) :
    (d.lastPhase + turned d.lastPhase samples) % 4 = (turn d samples).lastPhase := by
  induction samples generalizing d with
  | nil =>
    obtain ⟨low, high⟩ := isLast
    simpa [turned, turn] using Int.emod_eq_of_lt low high
  | cons c rest ih =>
    have first := displacement_emod d.lastPhase (isPhase_phase c)
    have later : (c.phase + turned c.phase rest) % 4 = (turn (updateVol d c.a c.b) rest).lastPhase :=
      ih (updateVol d c.a c.b) (isPhase_phase c)
    rw [turn_cons, turned, ← later]
    omega

theorem moves_free {d d' : Device} {c : Contacts} (moves : Moves d c d') (free : Free d c)
    (cases : displacement d.lastPhase c.phase = 1 ∨ displacement d.lastPhase c.phase = -1 ∨
      displacement d.lastPhase c.phase = 0) :
    d'.volume.toInt = d.volume.toInt - displacement d.lastPhase c.phase := by
  obtain ⟨_, above, below⟩ := free
  rcases cases with ahead | behind | still
  · have volume := moves.forwards ahead
    rw [if_neg (by have := above ahead; omega)] at volume
    omega
  · have volume := moves.backwards behind
    rw [if_neg (by have := below behind; omega)] at volume
    omega
  · rw [moves.otherwise (by omega) (by omega)]
    omega

theorem turn_free (d : Device) (samples : List Contacts) (isLast : IsPhase d.lastPhase)
    (free : Traces.Along (fun d c => updateVol d c.a c.b) Free d samples) :
    (turn d samples).volume.toInt = d.volume.toInt - turned d.lastPhase samples := by
  induction samples generalizing d with
  | nil => simp [turn, turned]
  | cons c rest ih =>
    obtain ⟨now, rest'⟩ := free
    have shape := displacement_cases isLast (isPhase_phase c)
    have first := moves_free (updateVol_moves d c isLast) now (by have := now.1; omega)
    have later : (turn (updateVol d c.a c.b) rest).volume.toInt =
        (updateVol d c.a c.b).volume.toInt - turned c.phase rest :=
      ih (updateVol d c.a c.b) (isPhase_phase c) rest'
    rw [turn_cons, turned, later, first]
    omega

/-- The volume counts the phases turned: each sample moves it as the encoder moved, it
goes no further out than the slack allows, and as long as no phase is skipped and no
limit met, it falls by the winding number, which an excursion leaves at zero. -/
theorem encoder_counts (d : Device) (samples : List Contacts) (isLast : IsPhase d.lastPhase) :
    (∀ before c rest, samples = before ++ c :: rest →
      Moves (turn d before) c (turn d (before ++ [c]))) ∧
    (∀ before rest, samples = before ++ rest →
      min (turn d before).volume.toInt (volMin - volSlack) ≤ (turn d samples).volume.toInt ∧
        (turn d samples).volume.toInt ≤ max (turn d before).volume.toInt (volMax + volSlack)) ∧
    (d.lastPhase + turned d.lastPhase samples) % 4 = (turn d samples).lastPhase ∧
    (Traces.Along (fun d c => updateVol d c.a c.b) Free d samples →
      (turn d samples).volume.toInt = d.volume.toInt - turned d.lastPhase samples ∧
        (turned d.lastPhase samples = 0 → (turn d samples).volume = d.volume)) := by
  refine ⟨?_, ?_, turn_lastPhase d samples isLast, fun free => ?_⟩
  · rintro before c rest rfl
    rw [turn_append]
    exact updateVol_moves _ c (isPhase_turn d before isLast)
  · rintro before rest rfl
    rw [turn_append]
    exact turn_bounds _ rest (isPhase_turn d before isLast)
  · have counted := turn_free d samples isLast free
    refine ⟨counted, fun returned => ?_⟩
    apply BitVec.eq_of_toInt_eq
    omega

/-- A bouncing contact: two samples forwards, one back, and back to the start. -/
def bounce : List Contacts := [⟨true, false⟩, ⟨true, true⟩, ⟨true, false⟩, ⟨false, false⟩]

theorem encoder_counts_bounce : (turn bootedDevice bounce).volume = bootedDevice.volume := by
  have isLast : IsPhase bootedDevice.lastPhase := ⟨by decide, by decide⟩
  have free : Traces.Along (fun d c => updateVol d c.a c.b) Free bootedDevice bounce := by
    refine ⟨⟨?_, ?_, ?_⟩, ⟨?_, ?_, ?_⟩, ⟨?_, ?_, ?_⟩, ⟨?_, ?_, ?_⟩, trivial⟩ <;> decide +kernel
  exact ((encoder_counts bootedDevice bounce isLast).2.2.2 free).2 (by decide +kernel)

end AsdPre.Encoder
