import AsdPre.ConfigMap
import AsdPre.FpgaLink

/-! The preamplifier as the firmware sees it: the globals of the main program, the
pins and chips they drive, and the functions that change them. Busy waits pass
time and change nothing here; console output is left out. -/
namespace AsdPre.Firmware

open ByteMemory ConfigStore ConfigMap FpgaLink

/-- `VOL_MAX`, `VOL_MIN`, `SOURCES`, `MAX_GAIN`; larger volumes are quieter. -/
abbrev volMax : Int := 1600
abbrev volMin : Int := 0
abbrev sources : Int := 3
abbrev maxGain : Int := 3

/-- `VOL_SHIFT`, `VOL_SLACK`, `INIT_MUTE_DELAY`, `MUTE_DELAY`. -/
abbrev volShift : Nat := 3
abbrev volSlack : Int := 100
abbrev initMuteDelay : Nat := 2000
abbrev muteDelay : Int := 1000

/-- The DAC registers the firmware names. -/
abbrev regChipId : Byte := 1
abbrev regVolMixInv : Byte := 3
abbrev regMuteCtrl : Byte := 4
abbrev regVolumeA : Byte := 5
abbrev regMiscCtrl : Byte := 8

/-- Levels of the three LED pins. -/
structure Leds where
  led0 : Bool
  led1 : Bool
  led2 : Bool
  deriving DecidableEq, Repr

structure Device where
  volume : BitVec 16
  lastPhase : Int
  dacMuted : Bool
  mute : Bool
  source : Int
  gain : Int
  muteCounter : Int
  msTicks : BitVec 32
  saveSettings : Bool
  init : Bool
  /-- Level of the MUTE pin; 1 lets sound through. -/
  mutePin : Bool
  leds : Leds
  dac : Byte → Byte
  fpga : SpiSlave.State
  config : Config

/-- Index 0 is the pin LED2, lit by a high level; 1 and 2 are LED1 and LED0, lit by
a low one. Any other index names no LED. -/
def setLed (leds : Leds) (led : Int) : Leds :=
  if led = 0 then { leds with led2 := true }
  else if led = 1 then { leds with led1 := false }
  else if led = 2 then { leds with led0 := false }
  else leds

def clearLed (leds : Leds) (led : Int) : Leds :=
  if led = 0 then { leds with led2 := false }
  else if led = 1 then { leds with led1 := true }
  else if led = 2 then { leds with led0 := true }
  else leds

def clearLeds (leds : Leds) : Leds := clearLed (clearLed (clearLed leds 0) 1) 2

def setMute (d : Device) (newMute : Bool) : Device :=
  { d with
    mute := newMute
    mutePin := !newMute
    leds := if newMute then clearLeds d.leds else setLed d.leds d.source }

def dacWriteReg (d : Device) (reg value : Byte) : Device :=
  { d with dac := fun r => if r = reg then value else d.dac r }

def dacSetVolume (d : Device) (vol : Byte) : Device := dacWriteReg d regVolumeA vol

def dacMute (d : Device) (on : Bool) : Device := dacWriteReg d regMuteCtrl (if on then 0xf8 else 0xe0)

/-- The power-up sequence of the DAC; the error is the text given to `panic`. -/
def dacInit (d : Device) (startVol : Byte) : Except String Device :=
  let d := dacWriteReg d regMiscCtrl 0xc0
  if d.dac regChipId &&& ~~~0x7#8 ≠ 0x70#8 then
    .error "Can't find DAC"
  else
    let d := dacWriteReg (dacWriteReg d regMuteCtrl 0xe0) regVolMixInv 0x89
    .ok (dacWriteReg (dacSetVolume d startVol) regMiscCtrl 0x40)

/-- `volume >> VOL_SHIFT` as the `uint8_t` parameter that receives it. -/
def dacLevel (volume : BitVec 16) : Byte := BitVec.ofInt 8 (volume.toInt >>> volShift)

/-- The first half of `setVol`: the new volume, and the DAC's volume register. -/
def setVolLevel (d : Device) (newVolume : BitVec 16) : Device :=
  let d := { d with volume := newVolume }
  if newVolume.toInt ≤ volMin then dacSetVolume d (BitVec.ofInt 8 (volMin >>> volShift))
  else dacSetVolume d (dacLevel newVolume)

/-- The second half: the DAC's mute register, written only when it has to change. -/
def setVolMute (d : Device) : Device :=
  if d.volume.toInt ≥ volMax then { dacMute d true with dacMuted := true }
  else if d.dacMuted then { dacMute d false with dacMuted := false }
  else d

def setVol (d : Device) (newVolume : BitVec 16) : Device := setVolMute (setVolLevel d newVolume)

/-- The phase of the rotary encoder from its two contacts. -/
def encoderPhase (a b : Bool) : Int :=
  match a, b with
  | false, false => 0
  | true, false => 1
  | true, true => 2
  | false, true => 3

/-- The volume after the encoder has come to a phase. -/
def turnVolume (d : Device) (phase : Int) : BitVec 16 :=
  let volume := if (d.lastPhase + 1).tmod 4 = phase ∧ d.volume.toInt > volMin - volSlack then
    d.volume - 1 else d.volume
  if (phase + 1).tmod 4 = d.lastPhase ∧ volume.toInt < volMax + volSlack then volume + 1 else volume

def updateVol (d : Device) (a b : Bool) : Device :=
  let phase := encoderPhase a b
  { setVol d (turnVolume d phase) with lastPhase := phase }

/-- An `int` passed where a `uint8_t` is expected. -/
def toByte (n : Int) : Byte := BitVec.ofInt 8 n

def setSource (d : Device) (newSource : Int) : Device :=
  let d := setMute d true
  -- the relay settles here, in a busy wait of 50 ms
  let d := { d with muteCounter := muteDelay, leds := clearLed d.leds d.source }
  let d := { d with source := newSource.tmod sources }
  let d := { d with fpga := fpgaSelectSource d.fpga (toByte d.source), saveSettings := true }
  { d with leds := setLed d.leds d.source }

def setGain (d : Device) (newGain : Int) : Device :=
  let d := { d with gain := newGain.tmod (maxGain + 1) }
  { d with fpga := fpgaSetGain d.fpga (toByte d.gain), saveSettings := true }

/-- `cycleSource` after the debounce, with the level of the button's pin. -/
def cycleSource (d : Device) (pin : Bool) : Device :=
  if !pin then setSource d (d.source + 1) else d

def sysTickHandler (d : Device) : Device :=
  { d with
    msTicks := d.msTicks + 1
    muteCounter := if d.muteCounter > 0 then d.muteCounter - 1 else d.muteCounter }

/-- The volume that `main` restores; a missing or zero entry means the quietest. -/
def restoreVolume (m : Memory) : BitVec 16 :=
  let volume := (getUint32 m volumeKey.id).setWidth 16
  let volume := if volume.toInt = 0 then BitVec.ofInt 16 volMax else volume
  let volume := if volume.toInt < volMin then BitVec.ofInt 16 volMin else volume
  if volume.toInt > volMax then BitVec.ofInt 16 volMax else volume

/-- The remainders are unsigned: the stored number is a `uint32_t`. -/
def restoreSource (m : Memory) : Int := ((getUint32 m sourceKey.id).toNat : Int) % sources

def restoreGain (m : Memory) : Int := ((getUint32 m gainKey.id).toNat : Int) % (maxGain + 1)

/-- The limits as numbers, for arithmetic. -/
theorem vol_limits : volMin = 0 ∧ volMax = 1600 := ⟨rfl, rfl⟩

theorem toInt_restoreVolume (m : Memory) : (restoreVolume m).toInt =
    if ((getUint32 m volumeKey.id).setWidth 16).toInt = 0 then volMax
    else max volMin (min ((getUint32 m volumeKey.id).setWidth 16).toInt volMax) := by
  rw [restoreVolume]
  generalize (getUint32 m volumeKey.id).setWidth 16 = stored
  have quietest : (BitVec.ofInt 16 volMax).toInt = volMax := rfl
  have loudest : (BitVec.ofInt 16 volMin).toInt = volMin := rfl
  have limits := vol_limits
  by_cases missing : stored.toInt = 0
  · have ordered : ¬ volMax < volMin := by omega
    simp only [missing, if_true, quietest, if_neg ordered, gt_iff_lt, lt_irrefl, if_false]
  · simp only [missing, if_false]
    by_cases negative : stored.toInt < volMin
    · rw [if_pos negative, loudest, if_neg (by omega), loudest]
      omega
    · rw [if_neg negative]
      split
      next beyond =>
        rw [quietest]
        omega
      next => omega

theorem restoreSource_range (m : Memory) : 0 ≤ restoreSource m ∧ restoreSource m < sources :=
  ⟨Int.emod_nonneg _ (by decide), Int.emod_lt_of_pos _ (by decide)⟩

theorem restoreGain_range (m : Memory) : 0 ≤ restoreGain m ∧ restoreGain m < maxGain + 1 :=
  ⟨Int.emod_nonneg _ (by decide), Int.emod_lt_of_pos _ (by decide)⟩

/-- The globals before `main`, and chips in any state. -/
def powerOn (dac : Byte → Byte) (fpga : SpiSlave.State) (config : Config) : Device where
  volume := BitVec.ofInt 16 volMax
  lastPhase := 0
  dacMuted := false
  mute := false
  source := 0
  gain := 0
  muteCounter := 0
  msTicks := 0
  saveSettings := false
  init := false
  mutePin := false
  leds := ⟨false, false, false⟩
  dac := dac
  fpga := fpga
  config := config

/-- `main` up to and including `init = true`, with the value `msTicks` has by then.
No handler acts before `init` is set. -/
def boot (d : Device) (msTicks : BitVec 32) : Except String Device := do
  -- paInit: muted, and all LEDs lit
  let d := { d with mutePin := false, leds := ⟨false, false, true⟩, msTicks := msTicks }
  let d := { d with config := configInit d.config }
  let d := { d with
    volume := restoreVolume d.config.mem
    source := restoreSource d.config.mem
    gain := restoreGain d.config.mem }
  let fpga ← fpgaInit d.fpga (toByte d.source) (toByte d.gain)
  let d ← dacInit { d with fpga := fpga } (dacLevel d.volume)
  return { d with init := true }

/-- What a successful start has restored from the settings. -/
structure Restored (d d' : Device) : Prop where
  config : d'.config = configInit d.config
  source : d'.source = restoreSource d'.config.mem
  gain : d'.gain = restoreGain d'.config.mem
  fpga : fpgaInit d.fpga (toByte d'.source) (toByte d'.gain) = .ok d'.fpga
  saveSettings : d'.saveSettings = d.saveSettings

theorem dacInit_ok (started : dacInit d startVol = .ok d') : ∃ dac, d' = { d with dac := dac } := by
  rw [dacInit] at started
  split at started
  · simp at started
  · have result := Except.ok.inj started
    subst result
    simp only [dacSetVolume, dacWriteReg]
    exact ⟨_, rfl⟩

/-- The device as `dacInit` finds it. -/
def withSettings (d : Device) (msTicks : BitVec 32) (fpga : SpiSlave.State) : Device :=
  { d with
    mutePin := false
    leds := ⟨false, false, true⟩
    msTicks := msTicks
    config := configInit d.config
    volume := restoreVolume (configInit d.config).mem
    source := restoreSource (configInit d.config).mem
    gain := restoreGain (configInit d.config).mem
    fpga := fpga }

/-- A start that ends has found both chips. -/
theorem boot_parts (booted : boot d msTicks = .ok d') : ∃ fpga ready,
    fpgaInit d.fpga (toByte (restoreSource (configInit d.config).mem))
      (toByte (restoreGain (configInit d.config).mem)) = .ok fpga ∧
    dacInit (withSettings d msTicks fpga) (dacLevel (restoreVolume (configInit d.config).mem)) =
      .ok ready ∧ d' = { ready with init := true } := by
  simp only [boot, bind, Except.bind] at booted
  split at booted
  · simp at booted
  · rename_i fpga found
    split at booted
    · simp at booted
    · rename_i ready started
      exact ⟨fpga, ready, found, started, (Except.ok.inj booted).symm⟩

theorem boot_ok (booted : boot d msTicks = .ok d') : Restored d d' := by
  obtain ⟨fpga, ready, found, started, rfl⟩ := boot_parts booted
  obtain ⟨dac, rfl⟩ := dacInit_ok started
  constructor <;> simp only [withSettings]
  exact found

/-- An amplifier with working chips and an erased settings page. -/
def erasedDevice : Device :=
  powerOn (fun _ => 0x70) SpiSlave.powerUp ⟨fun _ => 0xff, fun _ => 0xff⟩

/-- The same after a start that took two seconds. -/
def bootedDevice : Device :=
  match boot erasedDevice 2000 with
  | .ok d => d
  | .error _ => erasedDevice

theorem bootedDevice_boots : boot erasedDevice 2000 = .ok bootedDevice := rfl

section Fields

/-! What each function leaves in the fields that the other modules reason about. -/

variable (d : Device)

@[simp] theorem setMute_mute (b : Bool) : (setMute d b).mute = b := rfl
@[simp] theorem setMute_mutePin (b : Bool) : (setMute d b).mutePin = !b := rfl
@[simp] theorem setMute_muteCounter (b : Bool) : (setMute d b).muteCounter = d.muteCounter := rfl
@[simp] theorem setMute_saveSettings (b : Bool) : (setMute d b).saveSettings = d.saveSettings := rfl
@[simp] theorem setMute_source (b : Bool) : (setMute d b).source = d.source := rfl
@[simp] theorem setMute_gain (b : Bool) : (setMute d b).gain = d.gain := rfl
@[simp] theorem setMute_config (b : Bool) : (setMute d b).config = d.config := rfl

@[simp] theorem setSource_mute (n : Int) : (setSource d n).mute = true := rfl
@[simp] theorem setSource_mutePin (n : Int) : (setSource d n).mutePin = false := rfl
@[simp] theorem setSource_muteCounter (n : Int) : (setSource d n).muteCounter = muteDelay := rfl
@[simp] theorem setSource_saveSettings (n : Int) : (setSource d n).saveSettings = true := rfl
@[simp] theorem setSource_fpga (n : Int) :
    (setSource d n).fpga = fpgaSelectSource d.fpga (toByte (n.tmod sources)) := rfl

@[simp] theorem setGain_saveSettings (n : Int) : (setGain d n).saveSettings = true := rfl
@[simp] theorem setGain_fpga (n : Int) :
    (setGain d n).fpga = fpgaSetGain d.fpga (toByte (n.tmod (maxGain + 1))) := rfl

/-- A volume change reaches only the volume and the DAC. -/
theorem setVol_eq (v : BitVec 16) : ∃ dacMuted dac,
    setVol d v = { d with volume := v, dacMuted := dacMuted, dac := dac } := by
  simp only [setVol, setVolMute, setVolLevel]
  split <;> split <;> first | exact ⟨_, _, rfl⟩ | (split <;> exact ⟨_, _, rfl⟩)

@[simp] theorem updateVol_init (a b : Bool) : (updateVol d a b).init = d.init := by
  obtain ⟨_, _, changed⟩ := setVol_eq d (turnVolume d (encoderPhase a b))
  simp only [updateVol, changed]

@[simp] theorem cycleSource_init (pin : Bool) : (cycleSource d pin).init = d.init := by
  cases pin <;> rfl

end Fields

end AsdPre.Firmware
