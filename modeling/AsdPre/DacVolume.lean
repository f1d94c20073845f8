import AsdPre.CommandServer
import AsdPre.Traces

/-! What the DAC plays. Its mute register is written only when `setVol` crosses the
limit, which `dacMuted` is there to notice, and the volume register takes the low
eight bits of what it is given. A larger value is quieter, and muted is quietest. -/
namespace AsdPre.DacVolume

open ByteMemory ConfigStore ConfigMap Firmware CommandServer

/-- What the mute register holds while the DAC is muted. -/
abbrev muteOn : Byte := 0xf8

def Muted (d : Device) : Prop := d.dac regMuteCtrl = muteOn

instance (d : Device) : Decidable (Muted d) := inferInstanceAs (Decidable (_ = _))

/-- The value that `setVol` writes to the volume register. -/
def volumeRegister (v : BitVec 16) : Byte :=
  if v.toInt ≤ volMin then BitVec.ofInt 8 (volMin >>> volShift) else dacLevel v

/-- The DAC is in the state that the volume calls for. -/
structure Follows (d : Device) : Prop where
  muted : Muted d ↔ d.volume.toInt ≥ volMax
  mirrored : d.dacMuted = true ↔ Muted d
  level : ¬ Muted d → ((d.dac regVolumeA).toNat : Int) = max d.volume.toInt volMin >>> volShift

section SetVol

variable (d : Device) (v : BitVec 16)

@[simp] theorem setVolLevel_regVolumeA : (setVolLevel d v).dac regVolumeA = volumeRegister v := by
  simp only [setVolLevel, volumeRegister]
  split <;> simp [dacSetVolume, dacWriteReg]

@[simp] theorem setVolLevel_regMuteCtrl : (setVolLevel d v).dac regMuteCtrl = d.dac regMuteCtrl := by
  simp only [setVolLevel]
  split <;> simp [dacSetVolume, dacWriteReg]

@[simp] theorem setVolLevel_volume : (setVolLevel d v).volume = v := by
  simp only [setVolLevel]
  split <;> rfl

@[simp] theorem setVolLevel_dacMuted : (setVolLevel d v).dacMuted = d.dacMuted := by
  simp only [setVolLevel]
  split <;> rfl

@[simp] theorem setVol_volume : (setVol d v).volume = v := by
  obtain ⟨_, _, changed⟩ := setVol_eq d v
  rw [changed]

@[simp] theorem setVol_regVolumeA : (setVol d v).dac regVolumeA = volumeRegister v := by
  rw [setVol, ← setVolLevel_regVolumeA d v, setVolMute]
  split
  · simp [dacMute, dacWriteReg]
  · split <;> simp [dacMute, dacWriteReg]

theorem setVol_regMuteCtrl : (setVol d v).dac regMuteCtrl =
    if v.toInt ≥ volMax then muteOn else if d.dacMuted then 0xe0 else d.dac regMuteCtrl := by
  rw [setVol, setVolMute, setVolLevel_volume, setVolLevel_dacMuted]
  split
  · simp [dacMute, dacWriteReg]
  · split
    · simp [dacMute, dacWriteReg]
    · exact setVolLevel_regMuteCtrl d v

/-- The other registers keep their values. -/
theorem setVol_dac_other (r : Byte) (notVolume : r ≠ regVolumeA) (notMute : r ≠ regMuteCtrl) :
    (setVol d v).dac r = d.dac r := by
  have level : (setVolLevel d v).dac r = d.dac r := by
    simp only [setVolLevel]
    split <;> simp only [dacSetVolume, dacWriteReg, if_neg notVolume]
  rw [← level, setVol, setVolMute]
  split
  · simp only [dacMute, dacWriteReg, if_neg notMute]
  · split
    · simp only [dacMute, dacWriteReg, if_neg notMute]
    · rfl

theorem setVol_dacMuted : (setVol d v).dacMuted = decide (v.toInt ≥ volMax) := by
  rw [setVol, setVolMute, setVolLevel_volume, setVolLevel_dacMuted]
  split
  next quiet => simp [quiet]
  next audible =>
    split
    next => simp [audible]
    next never => simp [audible, never]

theorem muted_setVol :
    Muted (setVol d v) ↔ v.toInt ≥ volMax ∨ d.dacMuted = false ∧ Muted d := by
  rw [Muted, setVol_regMuteCtrl]
  split
  next quiet => simp [quiet]
  next audible => cases d.dacMuted <;> simp [audible, Muted]

/-- Below the limit the register takes the whole value. -/
theorem toNat_volumeRegister (audible : v.toInt < volMax) :
    ((volumeRegister v).toNat : Int) = max v.toInt volMin >>> volShift := by
  rw [volumeRegister]
  split
  next low =>
    rw [max_eq_right low]
    rfl
  next high =>
    have quotient : v.toInt >>> volShift = v.toInt / 8 := Int.shiftRight_eq_div_pow _ _
    have limits := vol_limits
    rw [dacLevel, max_eq_left (by omega), quotient, BitVec.toNat_ofInt]
    omega

/-- If the flag was right, the DAC is right after any `setVol`. -/
theorem follows_setVol (mirrored : d.dacMuted = true ↔ Muted d) : Follows (setVol d v) := by
  have muted : Muted (setVol d v) ↔ v.toInt ≥ volMax := by
    rw [muted_setVol]
    cases flag : d.dacMuted <;> simp_all
  refine ⟨?_, ?_, fun audible => ?_⟩
  · rw [muted, setVol_volume]
  · rw [muted, setVol_dacMuted, decide_eq_true_iff]
  · rw [muted] at audible
    rw [setVol_regVolumeA, setVol_volume, toNat_volumeRegister v (by omega)]

end SetVol

/-- The operations that change the volume: an encoder interrupt, or the command with
any argument. -/
inductive Operation where
  | turn (a b : Bool)
  | setVol (arg : List Byte)
  deriving DecidableEq, Repr

def apply (d : Device) : Operation → Device
  | .turn a b => updateVol d a b
  | .setVol arg =>
    match execute d (some arg) .setVol with
    | some (d', _) => d'
    | none => d

def run (d : Device) (ops : List Operation) : Device := Traces.run apply d ops

theorem follows_lastPhase (phase : Int) (follows : Follows d) :
    Follows { d with lastPhase := phase } :=
  ⟨follows.muted, follows.mirrored, follows.level⟩

theorem follows_apply (d : Device) (op : Operation) (follows : Follows d) : Follows (apply d op) := by
  cases op with
  | turn a b => exact follows_lastPhase _ (follows_setVol d _ follows.mirrored)
  | setVol arg =>
    have changed : apply d (.setVol arg) = setVol d ((strtol arg).setWidth 16) := rfl
    rw [changed]
    exact follows_setVol d _ follows.mirrored

theorem follows_run (d : Device) (ops : List Operation) (follows : Follows d) : Follows (run d ops) := by
  induction ops generalizing d with
  | nil => exact follows
  | cons op rest ih => exact ih (apply d op) (follows_apply d op follows)

section Boot

theorem dacInit_registers {d d' : Device} {startVol : Byte} (started : dacInit d startVol = .ok d') :
    d'.dac regMuteCtrl = 0xe0 ∧ d'.dac regVolumeA = startVol := by
  rw [dacInit] at started
  split at started
  · cases started
  · cases started
    simp [dacSetVolume, dacWriteReg]

theorem dacInit_frame {d d' : Device} {startVol : Byte} (started : dacInit d startVol = .ok d') :
    d'.volume = d.volume ∧ d'.dacMuted = d.dacMuted := by
  obtain ⟨dac, rfl⟩ := dacInit_ok started
  exact ⟨rfl, rfl⟩

/-- The DAC starts unmuted, whatever the volume. -/
theorem boot_dac {d d' : Device} {msTicks : BitVec 32} (booted : boot d msTicks = .ok d') :
    d'.volume = restoreVolume (configInit d.config).mem ∧ d'.dacMuted = d.dacMuted ∧
      d'.dac regMuteCtrl = 0xe0 ∧ d'.dac regVolumeA = dacLevel d'.volume := by
  obtain ⟨fpga, ready, _, started, rfl⟩ := boot_parts booted
  obtain ⟨mute, level⟩ := dacInit_registers started
  obtain ⟨volume, dacMuted⟩ := dacInit_frame started
  simp only [withSettings] at volume dacMuted
  rw [← volume] at level
  exact ⟨volume, dacMuted, mute, level⟩

/-- The restored volume in terms of the stored one. -/
theorem restoreVolume_range (m : Memory) :
    volMin ≤ (restoreVolume m).toInt ∧ (restoreVolume m).toInt ≤ volMax ∧
    ((restoreVolume m).toInt < volMax ↔
      ((getUint32 m volumeKey.id).setWidth 16).toInt ≠ 0 ∧
        ((getUint32 m volumeKey.id).setWidth 16).toInt < volMax) := by
  have limits := vol_limits
  rw [toInt_restoreVolume]
  split <;> omega

theorem follows_boot {d d' : Device} {msTicks : BitVec 32} (booted : boot d msTicks = .ok d')
    (flag : d.dacMuted = false) : Follows d' ↔ d'.volume.toInt < volMax := by
  obtain ⟨volume, dacMuted, mute, level⟩ := boot_dac booted
  have unmuted : ¬ Muted d' := by
    rw [Muted, mute]
    decide
  constructor
  · intro follows
    rw [follows.muted] at unmuted
    omega
  · intro audible
    refine ⟨⟨fun muted => absurd muted unmuted, fun quiet => ?_⟩, ?_, fun _ => ?_⟩
    · omega
    · simp [dacMuted, flag, unmuted]
    · have range := (restoreVolume_range (configInit d.config).mem).1
      rw [← volume] at range
      have register : dacLevel d'.volume = volumeRegister d'.volume := by
        rw [volumeRegister]
        split
        next low =>
          have zero : d'.volume.toInt = volMin := by omega
          rw [dacLevel, zero]
        next => rfl
      rw [level, register, toNat_volumeRegister _ audible]

/-- The DAC follows the volume through a whole run exactly if the stored volume, as
an `int16_t`, is neither 0 nor `VOL_MAX` or more. Otherwise the start restores
`VOL_MAX` and leaves the DAC unmuted. -/
theorem follows_iff (dac : Byte → Byte) (fpga : SpiSlave.State) (config : Config)
    (msTicks : BitVec 32) (d : Device) (booted : boot (powerOn dac fpga config) msTicks = .ok d)
    (ops : List Operation) :
    (∀ done, done <+: ops → Follows (run d done)) ↔
      ((getUint32 (configInit config).mem volumeKey.id).setWidth 16).toInt ≠ 0 ∧
      ((getUint32 (configInit config).mem volumeKey.id).setWidth 16).toInt < volMax := by
  have start := follows_boot booted rfl
  have restored : d.volume = restoreVolume (configInit config).mem := (boot_dac booted).1
  rw [restored, (restoreVolume_range _).2.2] at start
  constructor
  · intro always
    exact start.mp (always [] List.nil_prefix)
  · intro stored done _
    exact follows_run d done (start.mpr stored)

end Boot

/-- A page on which the volume 800 is stored. -/
def savedConfig : Config :=
  ⟨fun _ => 0xff, putLine (freshMem fun _ => 0xff) volumeKey.id (leBytes 4 800)⟩

def savedDevice : Device :=
  match boot (powerOn (fun _ => 0x70) SpiSlave.powerUp savedConfig) 2000 with
  | .ok d => d
  | .error _ => erasedDevice

theorem follows_iff_saved : Follows (run savedDevice [.turn true false, .setVol (ascii "1600")]) := by
  have booted : boot (powerOn (fun _ => 0x70) SpiSlave.powerUp savedConfig) 2000 =
      .ok savedDevice := rfl
  exact (follows_iff _ _ savedConfig 2000 savedDevice booted _).mpr
    ⟨by decide +kernel, by decide +kernel⟩ _ List.prefix_rfl

/-- Started from an erased page, the amplifier has its volume at the limit and its DAC
unmuted. -/
theorem erased_page_unmuted : ¬ ∀ (dac : Byte → Byte) (fpga : SpiSlave.State) (config : Config)
    (msTicks : BitVec 32) (d : Device), boot (powerOn dac fpga config) msTicks = .ok d →
    ∀ ops, Follows (run d ops) := by
  intro holds
  have follows := holds _ _ _ 2000 bootedDevice bootedDevice_boots []
  have quiet : bootedDevice.volume.toInt ≥ volMax := by decide
  exact absurd (follows.muted.mpr quiet) (by decide)

section Transient

/-! The order of the writes inside `setVol`. -/

/-- The first is at most as loud as the second. -/
def NotLouder (d than : Device) : Prop :=
  Muted d ∨ ¬ Muted than ∧ (than.dac regVolumeA).toNat ≤ (d.dac regVolumeA).toNat

/-- The device before, between and after the register writes of `setVol`. -/
def points (d : Device) (v : BitVec 16) : List Device := [d, setVolLevel d v, setVol d v]

/-- Nothing on the way is louder than both ends. -/
def NoLoudTransient (d : Device) (v : BitVec 16) : Prop :=
  ∀ p ∈ points d v, NotLouder p d ∨ NotLouder p (setVol d v)

/-- The DAC is muted already, or will not be, or its volume register does not fall. -/
def Gentle (d : Device) (v : BitVec 16) : Prop :=
  Muted d ∨ v.toInt < volMax ∨
    ((d.dac regVolumeA).toNat : Int) ≤ (v.toInt >>> volShift) % 2 ^ 8

theorem notLouder_refl (d : Device) : NotLouder d d := by
  by_cases muted : Muted d
  · exact .inl muted
  · exact .inr ⟨muted, Nat.le_refl _⟩

theorem toNat_volumeRegister_quiet (v : BitVec 16) (quiet : volMax ≤ v.toInt) :
    ((volumeRegister v).toNat : Int) = (v.toInt >>> volShift) % 2 ^ 8 := by
  have limits := vol_limits
  rw [volumeRegister, if_neg (by omega), dacLevel, BitVec.toNat_ofInt]
  omega

theorem noLoudTransient_iff (d : Device) (v : BitVec 16) : NoLoudTransient d v ↔ Gentle d v := by
  have ends : NoLoudTransient d v ↔
      NotLouder (setVolLevel d v) d ∨ NotLouder (setVolLevel d v) (setVol d v) := by
    simp [NoLoudTransient, points, notLouder_refl]
  have muted : Muted (setVolLevel d v) ↔ Muted d := by
    rw [Muted, Muted, setVolLevel_regMuteCtrl]
  rw [ends, NotLouder, NotLouder, muted, muted_setVol, setVolLevel_regVolumeA, setVol_regVolumeA,
    Gentle]
  by_cases already : Muted d
  · simp [already]
  · by_cases quiet : volMax ≤ v.toInt
    · have register := toNat_volumeRegister_quiet v quiet
      have audible : ¬ v.toInt < volMax := by omega
      simp only [already, quiet, audible, false_or, not_false_eq_true, true_and, true_or,
        not_true_eq_false, false_and, or_false]
      omega
    · have audible : v.toInt < volMax := by omega
      simp [already, quiet, audible]

/-- A sequence of calls is free of loud transients exactly if each is gentle when it
comes. -/
theorem calls_noLoudTransient_iff (d : Device) (calls : List (BitVec 16)) :
    (∀ before v rest, calls = before ++ v :: rest →
      NoLoudTransient (Traces.run setVol d before) v) ↔
      Traces.Along setVol Gentle d calls := by
  rw [Traces.along_iff]
  constructor
  · intro silent before v rest split
    exact (noLoudTransient_iff _ v).mp (silent before v rest split)
  · intro gentle before v rest split
    exact (noLoudTransient_iff _ v).mpr (gentle before v rest split)

/-- On its way from a moderate volume to silence, 2048 goes through full volume. -/
theorem overflow_transient_loud : ¬ ∀ (d : Device) (calls : List (BitVec 16)) (v : BitVec 16),
    NoLoudTransient (Traces.run setVol d calls) v := by
  intro holds
  have gentle := (noLoudTransient_iff _ _).mp (holds bootedDevice [800] 2048)
  exact absurd gentle (by unfold Gentle; decide +kernel)

end Transient

end AsdPre.DacVolume
