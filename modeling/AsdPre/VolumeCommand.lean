import AsdPre.CommandNumbers
import AsdPre.DacVolume

/-! How loud a commanded volume is. The number of a SET_VOL saturates to 32 bits, is
cut to 16, clamped at the loud end and divided by 8; whether a larger number is
quieter depends on what the cut leaves of it. -/
namespace AsdPre.VolumeCommand

open ByteMemory Firmware CommandServer CommandNumbers DacVolume

/-- The number as an `int16_t`, after `strtol` has saturated it. -/
def narrowed (n : Int) : Int := (max (-2 ^ 31) (min n (2 ^ 31 - 1))).bmod (2 ^ 16)

/-- The steps of attenuation between full volume, 0, and silence, 200. -/
def attenuation (n : Int) : Int := max volMin (min (narrowed n) volMax) / 2 ^ volShift

/-- After SET_VOL `n` the DAC is at least as quiet as after SET_VOL `m`. -/
def QuieterAfter (d : Device) (m n : Int) : Prop :=
  ∃ loud loudServed quiet quietServed,
    serverRecv d (numberLine .setVol m) = some (loud, loudServed) ∧
    serverRecv d (numberLine .setVol n) = some (quiet, quietServed) ∧ NotLouder quiet loud

/-- A 32-bit number at which the cut to 16 bits starts again at the loud end. -/
def Wraps (w : Int) : Prop := w % 2 ^ 16 = 2 ^ 15 ∧ -2 ^ 31 < w ∧ w < 2 ^ 31

theorem narrowed_mono {m n : Int} (order : m ≤ n) (smooth : ∀ w, m < w → w ≤ n → ¬ Wraps w) :
    narrowed m ≤ narrowed n := by
  by_contra wrong
  -- the last number up to `n` at which the cut starts again
  apply smooth ((max (-2 ^ 31) (min n (2 ^ 31 - 1)) + 2 ^ 15) / 2 ^ 16 * 2 ^ 16 - 2 ^ 15)
  all_goals
    simp only [narrowed, Int.bmod, Wraps] at wrong ⊢
    omega

theorem attenuation_mono {m n : Int} (order : m ≤ n) (smooth : ∀ w, m < w → w ≤ n → ¬ Wraps w) :
    attenuation m ≤ attenuation n := by
  have cut := narrowed_mono order smooth
  apply Int.ediv_le_ediv (by decide)
  omega

theorem attenuation_wraps {w : Int} (wraps : Wraps w) : attenuation w < attenuation (w - 1) := by
  obtain ⟨residue, low, high⟩ := wraps
  have here : narrowed w = -2 ^ 15 := by
    simp only [narrowed, Int.bmod]
    omega
  have before : narrowed (w - 1) = 2 ^ 15 - 1 := by
    simp only [narrowed, Int.bmod]
    omega
  rw [attenuation, attenuation, here, before]
  decide

theorem serverRecv_setVol (d : Device) (n : Int) : ∃ served,
    serverRecv d (numberLine .setVol n) =
      some (setVol d ((strtol (decimal n)).setWidth 16), served) := by
  rw [serverRecv_number]
  exact ⟨_, rfl⟩

/-- How loud two settings of one device are, relative to each other. -/
theorem notLouder_setVol (d : Device) (v w : BitVec 16) (usual : ¬ (d.dacMuted = false ∧ Muted d)) :
    NotLouder (setVol d w) (setVol d v) ↔
      max volMin (min v.toInt volMax) / 2 ^ volShift ≤ max volMin (min w.toInt volMax) / 2 ^ volShift := by
  have limits := vol_limits
  have eighth : ∀ k : Int, k >>> volShift = k / 8 := fun k => Int.shiftRight_eq_div_pow k _
  have divisor : (2 : Int) ^ volShift = 8 := rfl
  rw [NotLouder, muted_setVol, muted_setVol, setVol_regVolumeA, setVol_regVolumeA, divisor]
  simp only [usual, or_false]
  by_cases quiet : w.toInt ≥ volMax
  · simp only [quiet, true_or, true_iff]
    omega
  · by_cases loud : v.toInt ≥ volMax
    · simp only [quiet, loud, not_true_eq_false, false_and, or_false, false_iff]
      omega
    · have level := toNat_volumeRegister v (by omega)
      have level' := toNat_volumeRegister w (by omega)
      rw [eighth] at level level'
      simp only [quiet, loud, not_false_eq_true, true_and, false_or]
      omega

theorem quieterAfter_notLouder (d : Device) (m n : Int) :
    QuieterAfter d m n ↔ NotLouder (setVol d ((strtol (decimal n)).setWidth 16))
      (setVol d ((strtol (decimal m)).setWidth 16)) := by
  obtain ⟨servedM, recvM⟩ := serverRecv_setVol d m
  obtain ⟨servedN, recvN⟩ := serverRecv_setVol d n
  simp [QuieterAfter, recvM, recvN]

theorem notLouder_attenuation (d : Device) (m n : Int) (usual : ¬ (d.dacMuted = false ∧ Muted d)) :
    NotLouder (setVol d ((strtol (decimal n)).setWidth 16))
      (setVol d ((strtol (decimal m)).setWidth 16)) ↔ attenuation m ≤ attenuation n := by
  rw [notLouder_setVol d _ _ usual, toInt_setWidth_strtol, toInt_setWidth_strtol]
  rfl

theorem notLouder_stuck (d : Device) (v w : BitVec 16) (stuck : d.dacMuted = false ∧ Muted d) :
    NotLouder (setVol d w) (setVol d v) :=
  .inl ((muted_setVol d w).mpr (.inr stuck))

theorem quieterAfter_attenuation (d : Device) (m n : Int) :
    QuieterAfter d m n ↔ d.dacMuted = false ∧ Muted d ∨ attenuation m ≤ attenuation n := by
  rw [quieterAfter_notLouder]
  by_cases usual : d.dacMuted = false ∧ Muted d
  · exact iff_of_true (notLouder_stuck d _ _ usual) (.inl usual)
  · rw [notLouder_attenuation d m n usual, or_iff_right usual]

/-- Larger numbers are quieter throughout a range exactly if the cut to 16 bits does not
start again inside it; a DAC that was muted behind the firmware's back stays so. -/
theorem quieterAfter_iff (d : Device) (m n : Int) :
    (∀ m' n', m ≤ m' → m' ≤ n' → n' ≤ n → QuieterAfter d m' n') ↔
      d.dacMuted = false ∧ Muted d ∨ ∀ w, m < w → w ≤ n → ¬ Wraps w := by
  constructor
  · intro ordered
    by_cases stuck : d.dacMuted = false ∧ Muted d
    · exact .inl stuck
    · refine .inr fun w above below wraps => ?_
      have quieter := ordered (w - 1) w (by omega) (by omega) below
      rw [quieterAfter_attenuation, or_iff_right stuck] at quieter
      exact absurd (attenuation_wraps wraps) (Int.not_lt.mpr quieter)
  · intro condition m' n' above order below
    rw [quieterAfter_attenuation]
    refine condition.imp_right fun smooth => attenuation_mono order fun w lower upper => ?_
    exact smooth w (by omega) (by omega)

/-- 32768 becomes −32768: full volume, where 1600 would be silence. -/
theorem quieter_number_louder : ¬ ∀ (d : Device) (m n : Int), m ≤ n → QuieterAfter d m n := by
  intro holds
  obtain ⟨loud, _, quiet, _, recvM, recvN, quieter⟩ := holds bootedDevice 1600 32768 (by decide)
  have silent : (serverRecv bootedDevice (numberLine .setVol 1600)).map (·.1.dac regMuteCtrl) =
      some muteOn := by decide +kernel
  have audible : (serverRecv bootedDevice (numberLine .setVol 32768)).map (·.1.dac regMuteCtrl) =
      some 0xe0 := by decide +kernel
  rw [recvM] at silent
  rw [recvN] at audible
  have muted : Muted loud := Option.some.inj silent
  have register : quiet.dac regMuteCtrl = 0xe0 := Option.some.inj audible
  have unmuted : ¬ Muted quiet := by
    rw [Muted, register]
    decide
  rcases quieter with wrong | ⟨wrong, _⟩
  · exact unmuted wrong
  · exact wrong muted

end AsdPre.VolumeCommand
